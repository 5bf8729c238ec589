import Carcer.Machine.Port
import Carcer.Seed.HostRequests

/-!
# The relay of host responses

The part of `seed/build.c` that talks to the host. A build, finish or feature tool sends its request
and then answers the tool call with what the host responds: the payload of a good response goes
through byte by byte, any other becomes a failure. A response that is not a frame at all stops the
seed.

## Main definitions

* `Core`: the store and the next request ID
* `RawHeader`, `RawFrame`: what may arrive at the port
* `readHeaderFields`, `readResponseHeader`, `relayHostResponse`: the functions of the source
* `buildToolInvoke`, `finishGenerationToolInvoke`, `requestFeatureToolInvoke`: the tools
* `Forwarded`, `relayedPayload`: the responses that go through, and the payload of the answer

## Main results

* `runs_relayHostResponse`, `stops_relayHostResponse`: what a relay takes and writes
* `answers_build`, `answers_finish`, `answers_feature`: what the three tools do
-/

namespace Carcer.Seed

open Carcer.Machine Carcer.Wire List
open Carcer.Guest (HostRequest Frame)

/-- The state of the seed: the store and `next_host_request_id`. -/
structure Core where
  store : Store
  nextHostRequestID : UInt32

def hostResponseOutputMax : ℕ := 64 * 1024

def frameHeaderSize : ℕ := 16

/-! ### The functions -/

/-- The fields of a header, as they are read off the port. -/
structure HeaderFields where
  validMagic : Bool
  version : ℕ
  messageType : ℕ
  requestID : ℕ
  payloadLength : ℕ

/-- The sixteen bytes of a header and its fields, as `protocol_loop` and `read_response_header`
read them. -/
def readHeaderFields : PortM Core HeaderFields := do
  let header ← readBytes frameHeaderSize
  let version ← checked (readU16Le fun index => readList header (4 + index))
  let messageType ← checked (readU16Le fun index => readList header (6 + index))
  let requestID ← checked (readU32Le fun index => readList header (8 + index))
  let payloadLength ← checked (readU32Le fun index => readList header (12 + index))
  return ⟨header.take 4 = ascii "CXOS", version, messageType, requestID, payloadLength⟩

/-- `read_response_header`, with `protocol_fatal`. -/
def readResponseHeader : PortM Core HeaderFields := do
  let response ← readHeaderFields
  if response.payloadLength > frameMaxPayload ∨ !response.validMagic ∨
      response.version ≠ frameProtocolVersion then halt
  else return response

def sendToolFailure (toolRequestID : UInt32) (out : Bytes) : Checked Bytes :=
  return frameWriteU32 1 (frameSendHeader invokeToolResponse toolRequestID.toNat 4 out)

def allocateHostRequestID : PortM Core UInt32 := do
  let core ← getState
  let requestID := core.nextHostRequestID
  setState { core with nextHostRequestID := if requestID = 0xffffffff then 1 else requestID + 1 }
  return requestID

def relayHostResponse (hostRequestID toolRequestID : UInt32) : PortM Core Unit := do
  let response ← readResponseHeader
  if response.messageType ≠ hostServiceResponse ∨ response.requestID ≠ hostRequestID.toNat ∨
      response.payloadLength < 4 then
    discardBytes response.payloadLength
    emit (sendToolFailure toolRequestID)
  else
    let statusBytes ← readBytes 4
    let status ← checked (readU32Le (readList statusBytes))
    let outputLength ← checked (subU32 response.payloadLength 4)
    if status > 2 ∨ outputLength > hostResponseOutputMax then
      discardBytes outputLength
      emit (sendToolFailure toolRequestID)
    else
      emit (sendInvokeHeader toolRequestID.toNat status outputLength)
      forwardBytes outputLength

/-- A request is sent under a new ID, and the response is relayed. -/
def exchange (toolRequestID : UInt32) (send : ℕ → Bytes → Checked Bytes) : PortM Core Unit := do
  let hostRequestID ← allocateHostRequestID
  emit (send hostRequestID.toNat)
  relayHostResponse hostRequestID toolRequestID

def buildToolInvoke (toolRequestID : UInt32) : PortM Core Unit := do
  let core ← getState
  let fixedPayloadLength := 2 + buildServiceName.length + 2 + 4
  match ← checked (sourceSnapshotMeasure core.store) with
  | none => emit (sendToolFailure toolRequestID)
  | some (selectedCount, snapshotLength) =>
    if snapshotLength > (← checked (subU32 frameMaxPayload fixedPayloadLength)) then
      emit (sendToolFailure toolRequestID)
    else
      exchange toolRequestID fun hostRequestID =>
        sendBuildRequest hostRequestID selectedCount snapshotLength core.store

def finishGenerationToolInvoke (toolRequestID : UInt32) (handoff : Buffer) : PortM Core Unit := do
  let core ← getState
  let fixedPayloadLength := 2 + finishServiceName.length + 2 + 4 + 4
  if handoff.length > finishGenerationHandoffMax then emit (sendToolFailure toolRequestID)
  else
    match ← checked (sourceSnapshotMeasure core.store) with
    | none => emit (sendToolFailure toolRequestID)
    | some (selectedCount, snapshotLength) =>
      if (← checked (addU32 fixedPayloadLength handoff.length)) > frameMaxPayload then
        emit (sendToolFailure toolRequestID)
      else if snapshotLength > (← checked (do
          subU32 (← subU32 frameMaxPayload fixedPayloadLength) handoff.length)) then
        emit (sendToolFailure toolRequestID)
      else
        exchange toolRequestID fun hostRequestID =>
          sendFinishRequest hostRequestID handoff selectedCount snapshotLength core.store

def requestFeatureToolInvoke (toolRequestID : UInt32) (title description : Buffer) :
    PortM Core Unit := do
  let fixedPayloadLength := 2 + featureServiceName.length + 2 + 4 + 4
  if title.length = 0 ∨ title.length > featureRequestTitleMax ∨
      description.length > featureRequestDescriptionMax then
    emit (sendToolFailure toolRequestID)
  else if (← checked (addU32 fixedPayloadLength title.length)) > frameMaxPayload then
    emit (sendToolFailure toolRequestID)
  else if description.length > (← checked (do
      subU32 (← subU32 frameMaxPayload fixedPayloadLength) title.length)) then
    emit (sendToolFailure toolRequestID)
  else
    exchange toolRequestID fun hostRequestID =>
      sendFeatureRequest hostRequestID title description

/-! ### What may arrive at the port -/

/-- Any sixteen bytes, taken as a header. -/
structure RawHeader where
  magic : Bytes
  magic_length : magic.length = 4
  version : UInt16
  messageType : UInt16
  requestID : UInt32
  payloadLength : UInt32

def RawHeader.bytes (header : RawHeader) : Bytes :=
  header.magic ++ (leBytes 2 header.version.toNat ++ (leBytes 2 header.messageType.toNat ++
    (leBytes 4 header.requestID.toNat ++ leBytes 4 header.payloadLength.toNat)))

/-- The fields that are read off the bytes of a header. -/
def RawHeader.fields (header : RawHeader) : HeaderFields :=
  ⟨header.magic = ascii "CXOS", header.version.toNat, header.messageType.toNat,
    header.requestID.toNat, header.payloadLength.toNat⟩

/-- The header of a frame of the protocol. -/
def RawHeader.Valid (header : RawHeader) : Prop :=
  header.magic = ascii "CXOS" ∧ header.version.toNat = frameProtocolVersion

/-- A header and as many bytes behind it as it declares. -/
structure RawFrame where
  header : RawHeader
  payload : Bytes
  length_eq : payload.length = header.payloadLength.toNat

def RawFrame.bytes (frame : RawFrame) : Bytes := frame.header.bytes ++ frame.payload

theorem length_bytes (header : RawHeader) : header.bytes.length = frameHeaderSize := by
  simp [RawHeader.bytes, header.magic_length, frameHeaderSize]

section Fields

variable {bytes rest : Bytes} {offset width value : ℕ}

theorem drop_word (h : bytes.drop offset = leBytes width value ++ rest) :
    bytes.drop (offset + width) = rest := by
  rw [← drop_drop, h, List.drop_left' (length_leBytes _ _)]

theorem leValue_word (h : bytes.drop offset = leBytes width value ++ rest)
    (hvalue : value < 256 ^ width) : leValue ((bytes.drop offset).take width) = value := by
  rw [h, List.take_left' (length_leBytes _ _), leValue_leBytes hvalue]

/-- The fields of a header are read off its bytes, and nothing else is. -/
theorem runs_readHeaderFields (header : RawHeader) (core : Core) :
    Runs readHeaderFields core header.bytes [] header.fields core := by
  have hlength := length_bytes header
  have hsize : frameHeaderSize = 16 := rfl
  have hpoints := points_readList header.bytes
  have hmagic : header.bytes.take 4 = header.magic := List.take_left' header.magic_length
  -- each field stands behind the one before it
  have hversion : header.bytes.drop 4 = _ := List.drop_left' header.magic_length
  have htype : header.bytes.drop 6 = _ := drop_word hversion
  have hid : header.bytes.drop 8 = _ := drop_word htype
  have hpayload : header.bytes.drop 12 = _ := (drop_word hid).trans (append_nil _).symm
  refine (runs_readBytes hlength core).bind_last_read ?_
  rw [readU16Le_eq (hpoints.drop 4) (by simp; omega),
    leValue_word hversion header.version.toNat_lt, checked_ok_bind,
    readU16Le_eq (hpoints.drop 6) (by simp; omega),
    leValue_word htype header.messageType.toNat_lt, checked_ok_bind,
    readU32Le_eq (hpoints.drop 8) (by simp; omega),
    leValue_word hid header.requestID.toNat_lt, checked_ok_bind,
    readU32Le_eq (hpoints.drop 12) (by simp; omega),
    leValue_word hpayload header.payloadLength.toNat_lt, checked_ok_bind, hmagic]
  exact runs_pure _ core

end Fields

/-! ### The relay -/

/-- The headers behind which a response is read. -/
def RawHeader.Accepted (header : RawHeader) : Prop :=
  header.payloadLength.toNat ≤ frameMaxPayload ∧ header.Valid

instance (header : RawHeader) : Decidable header.Valid := inferInstanceAs (Decidable (_ ∧ _))

instance (header : RawHeader) : Decidable header.Accepted := inferInstanceAs (Decidable (_ ∧ _))

theorem accepted_iff (header : RawHeader) :
    header.Accepted ↔ ¬(header.fields.payloadLength > frameMaxPayload ∨
      (!header.fields.validMagic) = true ∨ header.fields.version ≠ frameProtocolVersion) := by
  simp [RawHeader.Accepted, RawHeader.Valid, RawHeader.fields]

variable {header : RawHeader} {core : Core}

theorem runs_readResponseHeader (h : header.Accepted) (core : Core) :
    Runs readResponseHeader core header.bytes [] header.fields core := by
  refine (runs_readHeaderFields header core).bind_last_read ?_
  rw [if_neg ((accepted_iff header).mp h)]
  exact runs_pure _ core

theorem stops_readResponseHeader (h : ¬header.Accepted) (core : Core) :
    Stops readResponseHeader core header.bytes [] .halted core := by
  refine (runs_readHeaderFields header core).bind_last_read ?_
  rw [if_pos (not_not.mp fun hnot => h ((accepted_iff header).mpr hnot))]
  exact stops_halt core

/-- The responses that go through: the answer to the request, with a known status and an output that
is not too long. -/
def Forwarded (hostRequestID : UInt32) (response : RawFrame) : Prop :=
  response.header.messageType.toNat = hostServiceResponse ∧
    response.header.requestID = hostRequestID ∧ 4 ≤ response.payload.length ∧
    leValue (response.payload.take 4) ≤ 2 ∧ response.payload.length - 4 ≤ hostResponseOutputMax

instance (hostRequestID : UInt32) (response : RawFrame) :
    Decidable (Forwarded hostRequestID response) :=
  inferInstanceAs (Decidable (_ ∧ _ ∧ _ ∧ _ ∧ _))

/-- The payload of the answer to the tool call. -/
def relayedPayload (hostRequestID : UInt32) (response : RawFrame) : Bytes :=
  if Forwarded hostRequestID response then response.payload else leBytes 4 toolFailure

theorem sendToolFailure_eq (toolRequestID : UInt32) (out : Bytes) :
    sendToolFailure toolRequestID out =
      .ok (out ++ (replyFrame toolRequestID (leBytes 4 toolFailure)).bytes) := by
  have hfailure := toolsSendFailure_eq toolRequestID.toNat out
  rw [toolReply_eq_bytes, append_nil] at hfailure
  rw [← hfailure]
  rfl

/-- **A relay takes one response and writes one answer**: a response that goes through is forwarded
as it is, any other becomes a failure. -/
theorem runs_relayHostResponse (hostRequestID toolRequestID : UInt32) {response : RawFrame}
    (h : response.header.Accepted) (core : Core) :
    Runs (relayHostResponse hostRequestID toolRequestID) core response.bytes
      (replyFrame toolRequestID (relayedPayload hostRequestID response)).bytes () core := by
  have hlength := response.length_eq
  have hfail := runs_emit (sendToolFailure_eq toolRequestID) core
  refine (runs_readResponseHeader h core).bind_read ?_
  by_cases hother : response.header.fields.messageType ≠ hostServiceResponse ∨
      response.header.fields.requestID ≠ hostRequestID.toNat ∨
      response.header.fields.payloadLength < 4
  · have hnot : ¬Forwarded hostRequestID response := by
      rintro ⟨htype, rfl, hlong, -⟩
      rcases hother with h | h | h
      · exact h htype
      · exact h rfl
      · exact absurd h (by rw [hlength] at hlong; exact Nat.not_lt.mpr hlong)
    rw [if_pos hother, relayedPayload, if_neg hnot]
    exact (runs_discardBytes hlength core).bind_last_read hfail
  obtain ⟨htype, hid, hlong⟩ : response.header.messageType.toNat = hostServiceResponse ∧
      response.header.requestID = hostRequestID ∧ 4 ≤ response.payload.length := by
    rw [not_or, not_or, not_not, not_not, not_lt, RawHeader.fields] at hother
    exact ⟨hother.1, UInt32.toNat_inj.mp hother.2.1, hlength ▸ hother.2.2⟩
  have hlengths : response.header.fields.payloadLength = response.payload.length := hlength.symm
  have htake : (response.payload.take 4).length = 4 := by simp; omega
  have hdrop : (response.payload.drop 4).length = response.payload.length - 4 := by simp
  rw [if_neg hother, ← take_append_drop 4 response.payload]
  refine (runs_readBytes htake core).bind_read ?_
  rw [readU32Le_eq (points_readList _) (by omega), checked_ok_bind, hlengths, subU32_eq hlong,
    checked_ok_bind, take_take, min_self]
  by_cases hbad : leValue (response.payload.take 4) > 2 ∨
      response.payload.length - 4 > hostResponseOutputMax
  · have hnot : ¬Forwarded hostRequestID response := by
      rintro ⟨-, -, -, hstatus, houtput⟩
      omega
    rw [if_pos hbad, relayedPayload, if_neg hnot]
    exact (runs_discardBytes hdrop core).bind_last_read hfail
  have hforwarded : Forwarded hostRequestID response := ⟨htype, hid, hlong, by omega, by omega⟩
  have hmax : hostResponseOutputMax = 65536 := rfl
  rw [if_neg hbad, relayedPayload, if_pos hforwarded]
  -- the header and the status go out first, the output behind them byte by byte
  have hheader : ∀ out, sendInvokeHeader toolRequestID.toNat (leValue (response.payload.take 4))
      (response.payload.length - 4) out = .ok (out ++
        (Guest.encodeHeader 0x8002 toolRequestID response.payload.length ++
          response.payload.take 4)) := by
    intro out
    have htype : invokeToolResponse = UInt16.toNat 0x8002 := rfl
    rw [sendInvokeHeader, addU32_eq (by omega), ok_bind, htype, frameSendHeader_eq,
      frameWriteU32, ← eq_leBytes htake, Nat.add_sub_cancel' hlong, append_assoc]
    rfl
  have hbytes : (replyFrame toolRequestID response.payload).bytes =
      (Guest.encodeHeader 0x8002 toolRequestID response.payload.length ++
        response.payload.take 4) ++ response.payload.drop 4 := by
    rw [append_assoc, take_append_drop]
    rfl
  rw [hbytes]
  exact (runs_emit hheader core).bind_write (runs_forwardBytes hdrop core)

/-- A response that is not a frame stops the seed: nothing is written. -/
theorem stops_relayHostResponse (hostRequestID toolRequestID : UInt32)
    (h : ¬header.Accepted) (core : Core) :
    Stops (relayHostResponse hostRequestID toolRequestID) core header.bytes [] .halted core :=
  (stops_readResponseHeader h core).stops_bind

/-! ### What a tool call does -/

/-- The states between two rounds. -/
structure Core.Reachable (core : Core) : Prop where
  store : core.store.Reachable
  nextHostRequestID_ne : core.nextHostRequestID ≠ 0

/-- The program answers a tool call on its own: it reads nothing, and writes one whole frame. -/
def AnswersAlone (x : PortM Core Unit) (toolRequestID : UInt32) (core : Core) : Prop :=
  ∃ payload core', core'.Reachable ∧ (replyFrame toolRequestID payload).Encodable ∧
    Runs x core [] (replyFrame toolRequestID payload).bytes () core'

/-- The program answers a tool call through the host: it writes one request, reads one response and
writes one answer. A response that is not a frame stops it before the answer. -/
def AnswersThrough (x : PortM Core Unit) (toolRequestID : UInt32) (core : Core) : Prop :=
  ∃ (request : HostRequest) (core' : Core), core'.Reachable ∧ request.Valid ∧
    request.frame.Encodable ∧
    request.serviceName ∈ [buildServiceName, finishServiceName, featureServiceName] ∧
    (∀ response : RawFrame, response.header.Accepted →
      Runs x core response.bytes (request.frame.bytes ++
        (replyFrame toolRequestID (relayedPayload request.requestID response)).bytes) () core') ∧
    ∀ header : RawHeader, ¬header.Accepted →
      Stops x core header.bytes request.frame.bytes .halted core'

/-- The program answers a tool call exactly once. -/
def Answers (x : PortM Core Unit) (toolRequestID : UInt32) (core : Core) : Prop :=
  AnswersAlone x toolRequestID core ∨ AnswersThrough x toolRequestID core

/-- A part that neither reads nor writes nor changes the state does not count. -/
theorem Answers.bind_quiet {α : Type} {x : PortM Core α} {f : α → PortM Core Unit} {a : α}
    {toolRequestID : UInt32} (hx : Runs x core [] [] a core)
    (h : Answers (f a) toolRequestID core) : Answers (x >>= f) toolRequestID core := by
  rcases h with ⟨payload, core', hcore', hencodable, hrun⟩ |
    ⟨request, core', hcore', hvalid, hencodable, hname, hruns, hstops⟩
  · exact .inl ⟨payload, core', hcore', hencodable, hx.bind_quiet hrun⟩
  exact .inr ⟨request, core', hcore', hvalid, hencodable, hname,
    fun response hresponse => hx.bind_quiet (hruns response hresponse),
    fun header hheader => hx.bind_quiet (hstops header hheader)⟩

theorem Answers.bind_getState {f : Core → PortM Core Unit} {toolRequestID : UInt32}
    (h : Answers (f core) toolRequestID core) : Answers (getState >>= f) toolRequestID core :=
  h.bind_quiet (runs_getState core)

theorem encodable_failure (toolRequestID : UInt32) :
    (replyFrame toolRequestID (leBytes 4 toolFailure)).Encodable := by
  rw [Frame.Encodable, replyFrame, length_leBytes]
  decide

theorem answers_failure {toolRequestID} (hcore : core.Reachable) :
    Answers (emit (sendToolFailure toolRequestID)) toolRequestID core :=
  .inl ⟨_, core, hcore, encodable_failure toolRequestID,
    runs_emit (sendToolFailure_eq toolRequestID) core⟩

/-- The ID that is allocated is not zero, and neither is the next one. -/
theorem runs_allocateHostRequestID (hcore : core.Reachable) :
    ∃ core', core'.Reachable ∧ core'.store = core.store ∧
      Runs allocateHostRequestID core [] [] core.nextHostRequestID core' := by
  refine ⟨{ core with nextHostRequestID := if core.nextHostRequestID = 0xffffffff then 1
    else core.nextHostRequestID + 1 }, ⟨hcore.store, ?_⟩, rfl, ?_⟩
  · simp only
    split_ifs with hlast
    · decide
    intro hzero
    have hmax : core.nextHostRequestID.toNat ≠ 4294967295 := fun h =>
      hlast (UInt32.toNat_inj.mp h)
    have hsum := congrArg UInt32.toNat hzero
    rw [UInt32.toNat_add] at hsum
    have hlt := core.nextHostRequestID.toNat_lt
    simp at hsum
    omega
  · exact (runs_getState core).bind_quiet ((runs_setState core _).bind_quiet (runs_pure _ _))

/-- A request that is sent under a new ID is answered through the host. -/
theorem answers_exchange {toolRequestID} (hcore : core.Reachable)
    {send : ℕ → Bytes → Checked Bytes} {name : Bytes} {arguments}
    (hname : name ∈ [buildServiceName, finishServiceName, featureServiceName])
    (hsend : SendsRequest (send core.nextHostRequestID.toNat)
      ⟨core.nextHostRequestID, name, arguments⟩) :
    Answers (exchange toolRequestID send) toolRequestID core := by
  obtain ⟨core', hcore', -, hallocate⟩ := runs_allocateHostRequestID hcore
  obtain ⟨hvalid, hencodable, hframe⟩ := hsend.frame
  refine .inr ⟨⟨core.nextHostRequestID, name, arguments⟩, core', hcore', hvalid, hencodable,
    hname, ?_, ?_⟩
  · intro response hresponse
    exact hallocate.bind_quiet ((runs_emit hframe core').bind_write
      (runs_relayHostResponse _ toolRequestID hresponse core'))
  · intro header hheader
    exact hallocate.bind_quiet ((runs_emit hframe core').bind_last_write
      (stops_relayHostResponse _ toolRequestID hheader core'))

section Tools

variable {toolRequestID : UInt32} {core : Core} (hcore : core.Reachable)
include hcore

theorem answers_build : Answers (buildToolInvoke toolRequestID) toolRequestID core := by
  have hwf := hcore.store.wellFormed
  have hlength : snapshotLength core.store.selected ≤ 98946 :=
    hwf.snapshotLength_le filter_sublist
  have hfixed : 2 + buildServiceName.length + 2 + 4 = 13 := rfl
  have hmax : frameMaxPayload = 16777216 := rfl
  refine Answers.bind_getState ?_
  simp only
  rw [hwf.sourceSnapshotMeasure_eq, checked_ok_bind]
  simp only
  rw [subU32_eq (by omega), checked_ok_bind, if_neg (by omega)]
  exact answers_exchange hcore (by simp)
    (sendsRequest_build hcore.nextHostRequestID_ne hwf)

theorem answers_finish (handoff : Buffer) :
    Answers (finishGenerationToolInvoke toolRequestID handoff) toolRequestID core := by
  have hwf := hcore.store.wellFormed
  have hlength : snapshotLength core.store.selected ≤ 98946 :=
    hwf.snapshotLength_le filter_sublist
  have hfixed : 2 + finishServiceName.length + 2 + 4 + 4 = 29 := rfl
  have hmax : frameMaxPayload = 16777216 := rfl
  have hhandoff : finishGenerationHandoffMax = 16384 := rfl
  refine Answers.bind_getState ?_
  simp only
  split_ifs with hlong
  · exact answers_failure hcore
  rw [hwf.sourceSnapshotMeasure_eq, checked_ok_bind]
  simp only
  rw [addU32_eq (by omega), checked_ok_bind, if_neg (by omega), subU32_eq (by omega), ok_bind,
    subU32_eq (by omega), checked_ok_bind, if_neg (by omega)]
  exact answers_exchange hcore (by simp)
    (sendsRequest_finish hcore.nextHostRequestID_ne hwf (by omega))

theorem answers_feature (title description : Buffer) :
    Answers (requestFeatureToolInvoke toolRequestID title description) toolRequestID core := by
  have hfixed : 2 + featureServiceName.length + 2 + 4 + 4 = 27 := rfl
  have hmax : frameMaxPayload = 16777216 := rfl
  have htitle : featureRequestTitleMax = 256 := rfl
  have hdescription : featureRequestDescriptionMax = 16384 := rfl
  unfold requestFeatureToolInvoke
  simp only
  split_ifs with hlong
  · exact answers_failure hcore
  rw [addU32_eq (by omega), checked_ok_bind, if_neg (by omega), subU32_eq (by omega), ok_bind,
    subU32_eq (by omega), checked_ok_bind, if_neg (by omega)]
  exact answers_exchange hcore (by simp)
    (sendsRequest_feature hcore.nextHostRequestID_ne (by omega) (by omega))

end Tools

end Carcer.Seed
