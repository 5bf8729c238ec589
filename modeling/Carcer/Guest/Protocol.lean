import Carcer.Guest.Framing
import Carcer.Wire.Call

/-!
# Host-service and tool messages

`internal/guest/protocol.go`: a guest asks for a service with a frame whose payload holds the name
and the arguments, and the harness answers with a status and an output. The harness asks for a tool
with a payload of the same layout.

## Main definitions

* `HostRequest`, `decodeHostServiceRequest`: a request and its decoder
* `HostServiceProtocolError.reason`: the texts of the decoder's errors, which the harness sends back
* `createHostServiceResponse`: the answer
* `HostRequest.Valid`, `HostRequest.frame`: the requests that a frame can carry, and their frames
* `invokeRequestPayloadSize`, `encodeInvokeRequest`: the payload of a tool call

## Main results

* `decodeHostServiceRequest_eq_ok`: the decoder accepts the frames of the valid requests
* `encodeInvokeRequest_eq_ok`: the calls that have a payload
-/

namespace Carcer.Guest

open Carcer.Wire

def hostServiceRequest : UInt16 := 0x0003

def hostServiceResponse : UInt16 := 0x8003

def maxProtocolNames : ℕ := 255

def maxArguments : ℕ := 64

structure HostRequest where
  requestID : UInt32
  serviceName : Bytes
  arguments : List Bytes
  deriving DecidableEq

/-- What the decoder of a request can find truncated. -/
inductive RequestField
  | serviceNameLength
  | serviceName
  | argumentCount
  | argumentLength
  | argument
  deriving DecidableEq

/-- The description of a field in the text of an error. -/
def RequestField.description : RequestField → Bytes
  | .serviceNameLength => ascii "service name length"
  | .serviceName => ascii "service name"
  | .argumentCount => ascii "argument count"
  | .argumentLength => ascii "argument length"
  | .argument => ascii "argument"

inductive HostServiceProtocolError
  | messageType (received : UInt16)
  | zeroRequestID
  | payloadTooLarge
  | truncated (field : RequestField)
  | emptyName
  | nameTooLong
  | nameEncoding
  | tooManyArguments
  | trailingData
  deriving DecidableEq

/-- A word printed with `%04x`. -/
def hexWord (word : UInt16) : Bytes :=
  [word.toNat / 4096, word.toNat / 256 % 16, word.toNat / 16 % 16, word.toNat % 16].map fun digit =>
    UInt8.ofNat (if digit < 10 then 0x30 + digit else 0x57 + digit)

def HostServiceProtocolError.reason : HostServiceProtocolError → Bytes
  | .messageType received =>
    ascii "expected HOST_SERVICE_REQUEST, got message type 0x" ++ hexWord received
  | .zeroRequestID => ascii "host-service request ID must be non-zero"
  | .payloadTooLarge => ascii "host-service request payload exceeds 16 MiB"
  | .truncated field => ascii "truncated " ++ field.description
  | .emptyName => ascii "service name must not be empty"
  | .nameTooLong => ascii "service name exceeds 255 encoded bytes"
  | .nameEncoding => ascii "service name is not valid UTF-8"
  | .tooManyArguments => ascii "argument count exceeds 64"
  | .trailingData => ascii "unexpected trailing data in host-service request"

/-- `protocolDecoder.bytes64`, on what stands behind the offset. -/
def decodeField (field : RequestField) (length : ℕ) (rest : Bytes) :
    Except HostServiceProtocolError (Bytes × Bytes) :=
  takeBytes (.truncated field) length rest

/-- The loop over the arguments of a request. -/
def decodeArguments : ℕ → Bytes → Except HostServiceProtocolError (List Bytes × Bytes)
  | 0, rest => .ok ([], rest)
  | count + 1, rest => do
    let (argumentLength, rest) ← decodeField .argumentLength 4 rest
    let (argument, rest) ← decodeField .argument (leValue argumentLength) rest
    let (arguments, rest) ← decodeArguments count rest
    return (argument :: arguments, rest)

def decodeHostServiceRequest (frame : Frame) : Except HostServiceProtocolError HostRequest := do
  failIf (frame.messageType ≠ hostServiceRequest) (.messageType frame.messageType)
  failIf (frame.requestID = 0) .zeroRequestID
  failIf (frame.payload.length > maxPayloadSize) .payloadTooLarge
  let (nameLength, rest) ← decodeField .serviceNameLength 2 frame.payload
  failIf (leValue nameLength = 0) .emptyName
  failIf (leValue nameLength > maxProtocolNames) .nameTooLong
  let (encodedName, rest) ← decodeField .serviceName (leValue nameLength) rest
  failIf (!utf8Valid encodedName) .nameEncoding
  let (argumentCount, rest) ← decodeField .argumentCount 2 rest
  failIf (leValue argumentCount > maxArguments) .tooManyArguments
  let (arguments, rest) ← decodeArguments (leValue argumentCount) rest
  failIf (rest ≠ []) .trailingData
  return ⟨frame.requestID, encodedName, arguments⟩

/-- The errors of `CreateHostServiceResponse`. -/
inductive HostResponseError
  /-- "host-service response request ID must be a non-zero uint32" -/
  | zeroRequestID
  /-- "host-service response payload exceeds 16 MiB" -/
  | payloadTooLarge
  deriving DecidableEq

def createHostServiceResponse (requestID : UInt32) (status : ℕ) (output : Bytes) :
    Except HostResponseError Frame := do
  failIf (requestID = 0) .zeroRequestID
  failIf (output.length > maxPayloadSize - 4) .payloadTooLarge
  return ⟨hostServiceResponse, requestID, leBytes 4 status ++ output⟩

/-! ### The requests that are decoded -/

/-- The requests that the protocol can carry. -/
structure HostRequest.Valid (request : HostRequest) : Prop where
  requestID_ne : request.requestID ≠ 0
  name_ne : request.serviceName ≠ []
  name_le : request.serviceName.length ≤ maxProtocolNames
  name_utf8 : utf8Valid request.serviceName = true
  count_le : request.arguments.length ≤ maxArguments

def HostRequest.frame (request : HostRequest) : Frame :=
  ⟨hostServiceRequest, request.requestID, callBytes request.serviceName request.arguments⟩

theorem decodeArguments_eq (count : ℕ) (rest : Bytes) :
    decodeArguments count rest =
      takeArguments (.truncated .argumentLength) (.truncated .argument) count rest := by
  induction count generalizing rest with
  | zero => rfl
  | succ count ih => simp only [decodeArguments, takeArguments, decodeField, ih]

/-- The errors of the decoder of requests. -/
def requestErrors : CallErrors HostServiceProtocolError where
  nameLength := .truncated .serviceNameLength
  emptyName := .emptyName
  nameTooLong := .nameTooLong
  name := .truncated .serviceName
  encoding := .nameEncoding
  count := .truncated .argumentCount
  tooManyArguments := .tooManyArguments
  argumentLength := .truncated .argumentLength
  argument := .truncated .argument
  trailing := .trailingData

/-- Behind the checks of the header the decoder splits the payload. -/
theorem decodeHostServiceRequest_eq (frame : Frame) :
    decodeHostServiceRequest frame = do
      failIf (frame.messageType ≠ hostServiceRequest) (.messageType frame.messageType)
      failIf (frame.requestID = 0) .zeroRequestID
      failIf (frame.payload.length > maxPayloadSize) .payloadTooLarge
      let call ← splitCall requestErrors maxProtocolNames maxArguments frame.payload
      return ⟨frame.requestID, call.1, call.2⟩ := by
  simp only [decodeHostServiceRequest, splitCall, splitArguments, decodeArguments_eq, decodeField,
    requestErrors, bind_assoc, pure_bind]

/-- **The decoder accepts the frames of the valid requests**, and returns the request. -/
theorem decodeHostServiceRequest_eq_ok {frame : Frame} {request : HostRequest} :
    decodeHostServiceRequest frame = .ok request ↔
      request.Valid ∧ frame.Encodable ∧ frame = request.frame := by
  have hsplit : frame.Encodable → ∀ {name arguments},
      splitCall requestErrors maxProtocolNames maxArguments frame.payload = .ok (name, arguments) ↔
        _ := fun h => splitCall_eq_ok (by decide) (by decide) (h.trans_lt (by decide))
  simp only [decodeHostServiceRequest_eq, bind_eq_ok, failIf_eq_ok, exists_const, Prod.exists,
    pure, Except.pure, Except.ok.injEq, not_not, not_lt]
  constructor
  · rintro ⟨htype, hid, hlength, name, arguments, hcall, rfl⟩
    obtain ⟨hutf8, hne, hle, hmax, hpayload⟩ := (hsplit hlength).mp hcall
    refine ⟨⟨hid, hne, hle, hutf8, hmax⟩, hlength, ?_⟩
    rw [HostRequest.frame, ← htype, ← hpayload]
  · rintro ⟨⟨hid, hne, hle, hutf8, hmax⟩, hlength, rfl⟩
    exact ⟨rfl, hid, hlength, _, _, (hsplit hlength).mpr ⟨hutf8, hne, hle, hmax, rfl⟩, rfl⟩

/-! ### Tool calls -/

def v1GuestInvocationPayloadCapacity : ℕ := 16 * 1024 + 256 + 27

/-- The errors of `EncodeInvokeRequest`. -/
inductive InvokeRequestError
  /-- "tool name is not valid UTF-8" -/
  | nameEncoding
  /-- "tool name must not be empty" -/
  | emptyName
  /-- "tool name exceeds 255 UTF-8 bytes" -/
  | nameTooLong
  /-- "an invocation may contain at most 64 arguments" -/
  | tooManyArguments
  /-- "invocation payload exceeds the 16 MiB frame limit" -/
  | payloadTooLarge
  deriving DecidableEq

def invokeRequestPayloadSize (name : Bytes) (arguments : List Bytes) :
    Except InvokeRequestError ℕ := do
  failIf (!utf8Valid name) .nameEncoding
  failIf (name = []) .emptyName
  failIf (name.length > maxProtocolNames) .nameTooLong
  failIf (arguments.length > maxArguments) .tooManyArguments
  return arguments.foldl (fun size argument => size + (4 + argument.length)) (2 + name.length + 2)

/-- `EncodeInvokeRequest`. The fields are written one behind the other into a slice of the computed
size. -/
def encodeInvokeRequest (name : Bytes) (arguments : List Bytes) :
    Except InvokeRequestError Bytes := do
  let encodedSize ← invokeRequestPayloadSize name arguments
  failIf (encodedSize > maxPayloadSize) .payloadTooLarge
  return callBytes name arguments

theorem foldl_size_eq (name : Bytes) (arguments : List Bytes) :
    arguments.foldl (fun size argument => size + (4 + argument.length)) (2 + name.length + 2) =
      (callBytes name arguments).length := by
  have hfold : ∀ size : ℕ,
      arguments.foldl (fun size argument => size + (4 + argument.length)) size =
      size + (arguments.map fun argument => 4 + argument.length).sum := by
    induction arguments with
    | nil => simp
    | cons argument arguments ih =>
      intro size
      rw [List.foldl_cons, ih, List.map_cons, List.sum_cons, Nat.add_assoc]
  rw [length_callBytes, hfold]

/-- **The calls that have a payload**, and the payload. -/
theorem encodeInvokeRequest_eq_ok {name payload : Bytes} {arguments : List Bytes} :
    encodeInvokeRequest name arguments = .ok payload ↔
      utf8Valid name = true ∧ name ≠ [] ∧ name.length ≤ maxProtocolNames ∧
        arguments.length ≤ maxArguments ∧ payload.length ≤ maxPayloadSize ∧
        payload = callBytes name arguments := by
  simp only [encodeInvokeRequest, invokeRequestPayloadSize, bind_eq_ok, failIf_eq_ok, exists_const,
    pure, Except.pure, Except.ok.injEq, not_lt, foldl_size_eq]
  constructor
  · rintro ⟨_, ⟨hutf8, hne, hle, hmax, rfl⟩, hsize, rfl⟩
    exact ⟨by simpa using hutf8, hne, hle, hmax, hsize, rfl⟩
  · rintro ⟨hutf8, hne, hle, hmax, hsize, rfl⟩
    exact ⟨_, ⟨by simpa using hutf8, hne, hle, hmax, rfl⟩, hsize, rfl⟩

end Carcer.Guest
