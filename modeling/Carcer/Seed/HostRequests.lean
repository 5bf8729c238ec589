import Carcer.Seed.Invocation

/-!
# The host-service requests of the seed

The senders of `seed/build.c`. A sender computes the length of its payload from the lengths of the
parts, and then streams the parts; the snapshot is streamed from the store, after it was measured.

## Main definitions

* `ArgumentWriter`, `sendServiceRequest`: an argument as it is announced and as it is written, and
  the part that the senders share
* `sendBuildRequest`, `sendFinishRequest`, `sendFeatureRequest`: the functions of the source
* `Store.snapshot`: the snapshot of a store
* `HandoffAccepted`, `FeatureAccepted`: the texts that the tools accept

## Main results

* `sendServiceRequest_eq`: when every argument is as long as announced, the frame of the request is
  sent
* `host_requests_decoded`: the decoder of the harness accepts exactly the encoded requests, and
  decodes what the three senders send
-/

namespace Carcer.Seed

open Carcer.Machine Carcer.Wire List
open Carcer.Guest (HostRequest Frame)

def hostServiceRequest : ℕ := 0x0003

def hostServiceResponse : ℕ := 0x8003

def finishGenerationHandoffMax : ℕ := 16 * 1024

def featureRequestTitleMax : ℕ := 256

def featureRequestDescriptionMax : ℕ := 16 * 1024

def buildServiceName : Bytes := ascii "build"

def finishServiceName : Bytes := ascii "finish_generation"

def featureServiceName : Bytes := ascii "request_feature"

/-! ### The senders -/

/-- An argument of a request: the length that is announced, and what writes it. -/
structure ArgumentWriter where
  length : ℕ
  write : Bytes → Checked Bytes

/-- What the senders share: the length of the payload is added up from its parts, and the parts are
written one behind the other. -/
def sendServiceRequest (requestID : ℕ) (name : Bytes) (arguments : List ArgumentWriter)
    (out : Bytes) : Checked Bytes := do
  let payloadLength ← arguments.foldlM (fun total argument => do
    addU32 (← addU32 total 4) argument.length) (2 + name.length + 2)
  let out := frameSendHeader hostServiceRequest requestID payloadLength out
  let out := frameWriteU16 name.length out
  let out ← serialWriteBytes (readList name) name.length out
  let out := frameWriteU16 arguments.length out
  arguments.foldlM (fun out argument => argument.write (frameWriteU32 argument.length out)) out

/-- A text as an argument. -/
def Buffer.writer (text : Buffer) : ArgumentWriter :=
  ⟨text.length, serialWriteBytes text.source text.length⟩

/-- The measured snapshot of a store as an argument. -/
def Store.writer (s : Store) (selectedCount snapshotLength : ℕ) : ArgumentWriter :=
  ⟨snapshotLength, sourceSnapshotWrite selectedCount s⟩

def sendBuildRequest (requestID selectedCount snapshotLength : ℕ) (s : Store) :
    Bytes → Checked Bytes :=
  sendServiceRequest requestID buildServiceName [s.writer selectedCount snapshotLength]

def sendFinishRequest (requestID : ℕ) (handoff : Buffer) (selectedCount snapshotLength : ℕ)
    (s : Store) : Bytes → Checked Bytes :=
  sendServiceRequest requestID finishServiceName
    [handoff.writer, s.writer selectedCount snapshotLength]

def sendFeatureRequest (requestID : ℕ) (title description : Buffer) : Bytes → Checked Bytes :=
  sendServiceRequest requestID featureServiceName [title.writer, description.writer]

/-! ### What the senders send -/

/-- The argument is as long as announced. -/
structure ArgumentWriter.Writes (writer : ArgumentWriter) (argument : Bytes) : Prop where
  length_eq : writer.length = argument.length
  write_eq : ∀ out, writer.write out = .ok (out ++ argument)

theorem frameSendHeader_eq (messageType : UInt16) (requestID : UInt32) (payloadLength : ℕ)
    (out : Bytes) : frameSendHeader messageType.toNat requestID.toNat payloadLength out =
      out ++ Guest.encodeHeader messageType requestID payloadLength := by
  simp only [frameSendHeader, Guest.encodeHeader, append_assoc]
  rfl

/-- The answer to a tool call, as a frame. -/
def replyFrame (requestID : UInt32) (payload : Bytes) : Frame := ⟨0x8002, requestID, payload⟩

theorem toolReply_eq_bytes (requestID : UInt32) (status : ℕ) (output : Bytes) :
    toolReply requestID.toNat status output =
      (replyFrame requestID (leBytes 4 status ++ output)).bytes := by
  have htype : invokeToolResponse = UInt16.toNat 0x8002 := rfl
  rw [toolReply, htype, frameSendHeader_eq]
  simp [replyFrame, Frame.bytes]

variable {writers : List ArgumentWriter} {arguments : List Bytes}

theorem payloadLength_eq (h : List.Forall₂ ArgumentWriter.Writes writers arguments) {total : ℕ}
    (hword : total + (arguments.map fun argument => 4 + argument.length).sum < 2 ^ 32) :
    writers.foldlM (fun total argument => do addU32 (← addU32 total 4) argument.length) total =
      .ok (total + (arguments.map fun argument => 4 + argument.length).sum) := by
  induction h generalizing total with
  | nil => rfl
  | @cons writer argument writers arguments hwriter _ ih =>
    rw [map_cons, sum_cons] at hword ⊢
    rw [foldlM_cons, addU32_eq (by omega), ok_bind, hwriter.length_eq, addU32_eq (by omega),
      ok_bind, ih (by omega)]
    exact congrArg Except.ok (by omega)

theorem writeArguments_eq (h : List.Forall₂ ArgumentWriter.Writes writers arguments) (out : Bytes) :
    writers.foldlM (fun out argument => argument.write (frameWriteU32 argument.length out)) out =
      .ok (out ++ arguments.flatMap argumentBytes) := by
  induction h generalizing out with
  | nil => simp [pure, Except.pure]
  | @cons writer argument writers arguments hwriter _ ih =>
    rw [foldlM_cons, hwriter.write_eq, ok_bind, ih, hwriter.length_eq]
    simp [frameWriteU32, argumentBytes]

/-- **When every argument is as long as announced, the frame of the request is sent.** -/
theorem sendServiceRequest_eq {request : HostRequest}
    (h : List.Forall₂ ArgumentWriter.Writes writers request.arguments)
    (hencodable : request.frame.Encodable) (out : Bytes) :
    sendServiceRequest request.requestID.toNat request.serviceName writers out =
      .ok (out ++ request.frame.bytes) := by
  have hlength := length_callBytes request.serviceName request.arguments
  have hmax : (callBytes request.serviceName request.arguments).length ≤ 16777216 := hencodable
  have htype : hostServiceRequest = Guest.hostServiceRequest.toNat := rfl
  unfold sendServiceRequest
  rw [payloadLength_eq h (by omega), ok_bind, ← hlength, htype, frameSendHeader_eq]
  simp only
  rw [serialWriteBytes_eq (points_readList _) rfl, ok_bind, writeArguments_eq h, h.length_eq]
  simp [HostRequest.frame, Frame.bytes, callBytes, frameWriteU16]

/-- The snapshot of a store. -/
def Store.snapshot (s : Store) : Bytes :=
  leBytes 2 s.selected.length ++ s.selected.flatMap entryBytes

theorem length_snapshot (s : Store) : s.snapshot.length = snapshotLength s.selected :=
  snapshotLength_eq _ _

theorem Buffer.writer_writes (text : Buffer) : text.writer.Writes text.bytes :=
  ⟨rfl, fun out => serialWriteBytes_eq text.points rfl out⟩

theorem Store.WellFormed.writer_writes {s : Store} (hs : s.WellFormed) :
    (s.writer s.selected.length (snapshotLength s.selected)).Writes s.snapshot := by
  refine ⟨(length_snapshot s).symm, fun out => ?_⟩
  refine (hs.sourceSnapshotWrite_eq s.selected.length out).trans ?_
  rw [append_assoc]
  rfl

theorem Store.WellFormed.length_snapshot_le {s : Store} (hs : s.WellFormed) :
    s.snapshot.length ≤ 98946 := by
  rw [length_snapshot]
  exact hs.snapshotLength_le filter_sublist

/-! ### What the harness decodes -/

/-- The handoffs that `invoke_finish_generation` accepts. -/
def HandoffAccepted (handoff : Buffer) : Prop :=
  handoff.length ≤ finishGenerationHandoffMax ∧ utf8Valid handoff.bytes = true

/-- The titles and descriptions that `invoke_request_feature` accepts. -/
def FeatureAccepted (title description : Buffer) : Prop :=
  title.length ≠ 0 ∧ title.length ≤ featureRequestTitleMax ∧
    description.length ≤ featureRequestDescriptionMax ∧
    utf8Valid title.bytes = true ∧ utf8Valid description.bytes = true

/-- The sender writes one whole frame, as long as it declares, that the harness decodes to the
request. -/
def SendsRequest (send : Bytes → Checked Bytes) (request : HostRequest) : Prop :=
  ∃ bytes frame, (∀ out, send out = .ok (out ++ bytes)) ∧
    Guest.readFrame bytes = .ok (frame, []) ∧
    Guest.decodeHostServiceRequest frame = .ok request

/-- The names of the services are names of requests. -/
def ServiceName (name : Bytes) : Prop :=
  name ≠ [] ∧ name.length ≤ Guest.maxProtocolNames ∧ utf8Valid name = true

instance (name : Bytes) : Decidable (ServiceName name) := inferInstanceAs (Decidable (_ ∧ _ ∧ _))

theorem serviceName_build : ServiceName buildServiceName := by decide +kernel

theorem serviceName_finish : ServiceName finishServiceName := by decide +kernel

theorem serviceName_feature : ServiceName featureServiceName := by decide +kernel

theorem sendsRequest_of_writes {requestID : UInt32} {name : Bytes} (hid : requestID ≠ 0)
    (hname : ServiceName name)
    (h : List.Forall₂ ArgumentWriter.Writes writers arguments)
    (hcount : arguments.length ≤ Guest.maxArguments)
    (hsize : (callBytes name arguments).length ≤ Guest.maxPayloadSize) :
    SendsRequest (sendServiceRequest requestID.toNat name writers)
      ⟨requestID, name, arguments⟩ := by
  obtain ⟨hne, hle, hutf8⟩ := hname
  set request : HostRequest := ⟨requestID, name, arguments⟩ with hrequest
  have hencodable : request.frame.Encodable := hsize
  have hsent : ∀ out, sendServiceRequest requestID.toNat name writers out =
      .ok (out ++ request.frame.bytes) := sendServiceRequest_eq h hencodable
  exact ⟨request.frame.bytes, request.frame, hsent,
    Guest.readFrame_eq_ok.mpr ⟨hencodable, (append_nil _).symm⟩,
    Guest.decodeHostServiceRequest_eq_ok.mpr ⟨⟨hid, hne, hle, hutf8, hcount⟩, hencodable, rfl⟩⟩

/-- What is sent is the frame of the request. -/
theorem SendsRequest.frame {send : Bytes → Checked Bytes} {request}
    (h : SendsRequest send request) : request.Valid ∧ request.frame.Encodable ∧
      ∀ out, send out = .ok (out ++ request.frame.bytes) := by
  obtain ⟨bytes, frame, hsend, hread, hdecode⟩ := h
  obtain ⟨hvalid, hencodable, rfl⟩ := Guest.decodeHostServiceRequest_eq_ok.mp hdecode
  obtain ⟨-, rfl⟩ := Guest.readFrame_eq_ok.mp hread
  exact ⟨hvalid, hencodable, fun out => by rw [hsend, append_nil]⟩

section Senders

variable {s : Store} {requestID : UInt32} (hid : requestID ≠ 0)
include hid

theorem sendsRequest_build (hs : s.WellFormed) :
    SendsRequest (sendBuildRequest requestID.toNat s.selected.length
      (snapshotLength s.selected) s) ⟨requestID, buildServiceName, [s.snapshot]⟩ := by
  have hsnapshot := hs.length_snapshot_le
  have hname : buildServiceName.length = 5 := rfl
  have hmax : Guest.maxPayloadSize = 16777216 := rfl
  refine sendsRequest_of_writes hid serviceName_build (.cons hs.writer_writes .nil)
    (by simp [Guest.maxArguments]) ?_
  rw [length_callBytes]
  simp only [map_cons, map_nil, sum_cons, sum_nil]
  omega

theorem sendsRequest_finish (hs : s.WellFormed) {handoff : Buffer}
    (hhandoff : handoff.length ≤ finishGenerationHandoffMax) :
    SendsRequest (sendFinishRequest requestID.toNat handoff s.selected.length
      (snapshotLength s.selected) s)
      ⟨requestID, finishServiceName, [handoff.bytes, s.snapshot]⟩ := by
  have hsnapshot := hs.length_snapshot_le
  have hlength : handoff.bytes.length ≤ 16384 := hhandoff
  have hname : finishServiceName.length = 17 := rfl
  have hmax : Guest.maxPayloadSize = 16777216 := rfl
  refine sendsRequest_of_writes hid serviceName_finish
    (.cons handoff.writer_writes (.cons hs.writer_writes .nil)) (by simp [Guest.maxArguments]) ?_
  rw [length_callBytes]
  simp only [map_cons, map_nil, sum_cons, sum_nil]
  omega

theorem sendsRequest_feature {title description : Buffer}
    (htitle : title.length ≤ featureRequestTitleMax)
    (hdescription : description.length ≤ featureRequestDescriptionMax) :
    SendsRequest (sendFeatureRequest requestID.toNat title description)
      ⟨requestID, featureServiceName, [title.bytes, description.bytes]⟩ := by
  have hlength : title.bytes.length ≤ 256 := htitle
  have hlength' : description.bytes.length ≤ 16384 := hdescription
  have hname : featureServiceName.length = 15 := rfl
  have hmax : Guest.maxPayloadSize = 16777216 := rfl
  refine sendsRequest_of_writes hid serviceName_feature
    (.cons title.writer_writes (.cons description.writer_writes .nil))
    (by simp [Guest.maxArguments]) ?_
  rw [length_callBytes]
  simp only [map_cons, map_nil, sum_cons, sum_nil]
  omega

end Senders

/-- **The requests of the seed reach the services.** The decoder of the harness accepts a frame
exactly when it is the frame of a valid request, and returns the request. In every reachable store,
and for every text that the tools accept, each of the senders writes a frame that is as long as it
declares, and that is decoded to its service with the texts and the snapshot of the store. -/
theorem host_requests_decoded :
    (∀ (frame : Frame) (request : HostRequest),
      Guest.decodeHostServiceRequest frame = .ok request ↔
        request.Valid ∧ frame = request.frame ∧ ∃ bytes, Guest.encodeFrame frame = .ok bytes) ∧
    ∀ s : Store, s.Reachable → ∀ requestID : UInt32, requestID ≠ 0 →
      ∃ selectedCount snapshotLength, sourceSnapshotMeasure s =
          .ok (some (selectedCount, snapshotLength)) ∧
        sourceSnapshotWrite selectedCount s [] = .ok s.snapshot ∧
        SendsRequest (sendBuildRequest requestID.toNat selectedCount snapshotLength s)
          ⟨requestID, ascii "build", [s.snapshot]⟩ ∧
        (∀ handoff, HandoffAccepted handoff →
          SendsRequest (sendFinishRequest requestID.toNat handoff selectedCount snapshotLength s)
            ⟨requestID, ascii "finish_generation", [handoff.bytes, s.snapshot]⟩) ∧
        ∀ title description, FeatureAccepted title description →
          SendsRequest (sendFeatureRequest requestID.toNat title description)
            ⟨requestID, ascii "request_feature", [title.bytes, description.bytes]⟩ := by
  constructor
  · intro frame request
    rw [Guest.decodeHostServiceRequest_eq_ok]
    refine and_congr_right fun _ => ?_
    rw [and_comm]
    refine and_congr_right fun _ => ?_
    simp [Guest.encodeFrame_eq_ok]
  · intro s hs requestID hid
    have hwf := hs.wellFormed
    refine ⟨_, _, hwf.sourceSnapshotMeasure_eq, ?_, sendsRequest_build hid hwf, ?_, ?_⟩
    · exact (hwf.writer_writes.write_eq []).trans rfl
    · exact fun handoff hhandoff => sendsRequest_finish hid hwf hhandoff.1
    · exact fun title description h => sendsRequest_feature hid h.2.1 h.2.2.1

end Carcer.Seed
