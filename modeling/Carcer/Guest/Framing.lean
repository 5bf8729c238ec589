import Carcer.Wire.Bytes
import Carcer.Wire.Incremental

/-!
# Frames of the guest protocol

`internal/guest/framing.go`: the encoding of a frame, the blocking reader and the incremental
parser. The incremental parser rejects a wrong magic before it has a whole header, so its error
can be visible earlier than the reader's; it is at the same frame.

## Main definitions

* `Frame`, `FramingError`: the values of the source
* `encodeFrame`, `decodeHeader`, `readFrame`, `extractFrame`: the functions of the source
* `readFrames`: `readFrame` repeated over a whole stream
* `extractStep`: `extractFrame` as an incremental scanner

## Main results

* `incremental_extractStep`: what `extractFrame` decides stays decided as the buffer grows
* `frames_chunk_independent`: the frames, what is left over and the error do not depend on how a
  stream is cut, and agree with the blocking reader
-/

namespace Carcer.Guest

open Carcer.Wire List

def protocolVersion : ℕ := 1

def maxPayloadSize : ℕ := 16 * 1024 * 1024

def frameHeaderSize : ℕ := 16

def frameMagic : Bytes := ascii "CXOS"

structure Frame where
  messageType : UInt16
  requestID : UInt32
  payload : Bytes
  deriving DecidableEq, Repr

/-- The errors of the source, each with what its text prints. -/
inductive FramingError
  /-- "payload exceeds the 16 MiB version 1 limit" -/
  | payloadTooLarge
  /-- "connection closed while reading frame header: %v" -/
  | closedInHeader
  /-- "connection closed while reading frame payload: %v" -/
  | closedInPayload
  /-- "invalid frame magic %q" -/
  | invalidMagic (magic : Bytes)
  /-- "unsupported protocol version %d" -/
  | unsupportedVersion (version : ℕ)
  /-- "payload length %d exceeds the 16 MiB version 1 limit" -/
  | payloadLength (length : ℕ)
  deriving DecidableEq, Repr

/-- The header of a frame whose payload has the given length. -/
def encodeHeader (messageType : UInt16) (requestID : UInt32) (payloadLength : ℕ) : Bytes :=
  frameMagic ++ leBytes 2 protocolVersion ++ leBytes 2 messageType.toNat ++
    leBytes 4 requestID.toNat ++ leBytes 4 payloadLength

def encodeFrame (frame : Frame) : Except FramingError Bytes := do
  failIf (frame.payload.length > maxPayloadSize) .payloadTooLarge
  return encodeHeader frame.messageType frame.requestID frame.payload.length ++ frame.payload

/-- The bytes `data[start:stop]`. -/
def subslice (data : Bytes) (start stop : ℕ) : Bytes := (data.take stop).drop start

/-- `decodeHeader`: the message type, the request ID and the length of the payload. -/
def decodeHeader (header : Bytes) : Except FramingError (UInt16 × UInt32 × ℕ) := do
  failIf (header.take 4 ≠ frameMagic) (.invalidMagic (header.take 4))
  let version := leValue (subslice header 4 6)
  failIf (version ≠ protocolVersion) (.unsupportedVersion version)
  let payloadLength := leValue (subslice header 12 16)
  failIf (payloadLength > maxPayloadSize) (.payloadLength payloadLength)
  return (UInt16.ofNat (leValue (subslice header 6 8)),
    UInt32.ofNat (leValue (subslice header 8 12)), payloadLength)

/-- `ReadFrame`, on the bytes that the reader delivers before it is closed. -/
def readFrame (stream : Bytes) : Except FramingError (Frame × Bytes) := do
  let (header, rest) ← takeBytes .closedInHeader frameHeaderSize stream
  let (messageType, requestID, payloadLength) ← decodeHeader header
  let (payload, rest) ← takeBytes .closedInPayload payloadLength rest
  return (⟨messageType, requestID, payload⟩, rest)

/-- The first loop of `ExtractFrame` finds a byte that differs from the magic, in as much of it as
the buffer holds. -/
def MagicMismatch (data : Bytes) : Prop :=
  data.take (min data.length frameMagic.length) ≠
    frameMagic.take (min data.length frameMagic.length)

instance (data : Bytes) : Decidable (MagicMismatch data) := inferInstanceAs (Decidable (_ ≠ _))

/-- `ExtractFrame`: the frame when one is complete, and the buffer that it leaves. An error leaves
the buffer as it was. -/
def extractFrame (data : Bytes) : Except FramingError (Option Frame × Bytes) := do
  failIf (MagicMismatch data) (.invalidMagic (data.take (min data.length frameMagic.length)))
  if data.length < frameHeaderSize then return (none, data)
  let (messageType, requestID, payloadLength) ← decodeHeader (data.take frameHeaderSize)
  let frameLength := frameHeaderSize + payloadLength
  if data.length < frameLength then return (none, data)
  return (some ⟨messageType, requestID, subslice data frameHeaderSize frameLength⟩,
    data.drop frameLength)

/-- `ReadFrame` as a scanner of a stream that has ended: it never waits. -/
def readStep (stream : Bytes) : Step Frame FramingError UInt8 :=
  match readFrame stream with
  | .error e => .stop e stream
  | .ok (frame, rest) => .emit frame rest

/-- The whole stream parsed with `ReadFrame` until it fails: the frames, the bytes behind the last
one and the error. -/
def readFrames (stream : Bytes) : Outcome Frame FramingError UInt8 := scan readStep stream

/-- `ExtractFrame` as a scanner. Its error leaves the buffer in place; the text of the error, which
prints as much of the magic as the buffer holds, is left out. -/
def extractStep (data : Bytes) : Step Frame Unit UInt8 :=
  match extractFrame data with
  | .error _ => .stop () data
  | .ok (none, _) => .wait
  | .ok (some frame, rest) => .emit frame rest

/-- The buffer to which each chunk is appended, with `ExtractFrame` called until it reports an
incomplete frame or fails: the frames, what is left over, and whether it failed. -/
def extractChunks (chunks : List Bytes) : Outcome Frame Unit UInt8 :=
  chunks.foldl (feed extractStep) ⟨[], [], none⟩

/-! ### Headers -/

@[simp] theorem length_encodeHeader (messageType : UInt16) (requestID : UInt32)
    (payloadLength : ℕ) :
    (encodeHeader messageType requestID payloadLength).length = frameHeaderSize := by
  simp [encodeHeader, frameMagic, ascii, frameHeaderSize]

variable {header : Bytes} {data : Bytes} {frame : Frame}

theorem header_eq (h : header.length = frameHeaderSize) :
    header = header.take 4 ++ subslice header 4 6 ++ subslice header 6 8 ++
      subslice header 8 12 ++ subslice header 12 16 := by
  have hjoin : ∀ {a b : ℕ}, a ≤ b → header.take a ++ subslice header a b = header.take b := by
    intro a b hab
    have htake : header.take a = (header.take b).take a := by rw [take_take, min_eq_left hab]
    rw [subslice, htake, take_append_drop]
  rw [hjoin (by omega), hjoin (by omega), hjoin (by omega), hjoin (by omega),
    take_of_length_le (by rw [h]; decide)]

theorem length_subslice {start stop : ℕ} (h : stop ≤ data.length) :
    (subslice data start stop).length = stop - start := by
  simp [subslice, h]

theorem subslice_eq_leBytes (h : header.length = frameHeaderSize)
    (start width : ℕ) (hstop : start + width ≤ frameHeaderSize) :
    leBytes width (leValue (subslice header start (start + width))) =
      subslice header start (start + width) := by
  refine (eq_leBytes ?_).symm
  rw [length_subslice (h ▸ hstop)]
  omega

theorem decodeHeader_eq_ok (h : header.length = frameHeaderSize)
    {messageType : UInt16} {requestID : UInt32} {payloadLength : ℕ} :
    decodeHeader header = .ok (messageType, requestID, payloadLength) ↔
      header = encodeHeader messageType requestID payloadLength ∧
        payloadLength ≤ maxPayloadSize := by
  have hsize : frameHeaderSize = 16 := rfl
  simp only [decodeHeader, bind_eq_ok, failIf_eq_ok, exists_const, pure, Except.pure,
    Except.ok.injEq, Prod.mk.injEq, not_not, not_lt]
  constructor
  · rintro ⟨hmagic, hversion, hlength, rfl, rfl, rfl⟩
    refine ⟨?_, hlength⟩
    have htype := leValue_lt (subslice header 6 8)
    have hid := leValue_lt (subslice header 8 12)
    rw [length_subslice (by omega)] at htype hid
    rw [encodeHeader, ← hmagic, ← hversion, UInt16.toNat_ofNat_of_lt' (by simpa using htype),
      UInt32.toNat_ofNat_of_lt' (by simpa using hid), subslice_eq_leBytes h 4 2 (by decide),
      subslice_eq_leBytes h 6 2 (by decide), subslice_eq_leBytes h 8 4 (by decide),
      subslice_eq_leBytes h 12 4 (by decide)]
    exact header_eq h
  · rintro ⟨rfl, hlength⟩
    have hversion : subslice (encodeHeader messageType requestID payloadLength) 4 6 =
      leBytes 2 protocolVersion := rfl
    have htype : subslice (encodeHeader messageType requestID payloadLength) 6 8 =
      leBytes 2 messageType.toNat := rfl
    have hid : subslice (encodeHeader messageType requestID payloadLength) 8 12 =
      leBytes 4 requestID.toNat := rfl
    have hpayload : subslice (encodeHeader messageType requestID payloadLength) 12 16 =
      leBytes 4 payloadLength := rfl
    have hword : payloadLength < 256 ^ 4 := hlength.trans_lt (by decide)
    rw [hversion, htype, hid, hpayload, leValue_leBytes (by decide), leValue_leBytes hword,
      leValue_leBytes messageType.toNat_lt, leValue_leBytes requestID.toNat_lt]
    exact ⟨rfl, rfl, hlength, UInt16.ofNat_toNat, UInt32.ofNat_toNat, rfl⟩

/-! ### Frames -/

def Frame.bytes (frame : Frame) : Bytes :=
  encodeHeader frame.messageType frame.requestID frame.payload.length ++ frame.payload

/-- A frame that `EncodeFrame` accepts. -/
def Frame.Encodable (frame : Frame) : Prop := frame.payload.length ≤ maxPayloadSize

theorem Frame.length_bytes (frame : Frame) :
    frame.bytes.length = frameHeaderSize + frame.payload.length := by
  simp [Frame.bytes]

theorem encodeFrame_eq_ok {bytes : Bytes} :
    encodeFrame frame = .ok bytes ↔ frame.Encodable ∧ bytes = frame.bytes := by
  simp only [encodeFrame, bind_eq_ok, failIf_eq_ok, exists_const, pure, Except.pure,
    Except.ok.injEq, not_lt]
  exact and_congr_right fun _ => eq_comm

theorem readFrame_eq_ok {stream rest : Bytes} :
    readFrame stream = .ok (frame, rest) ↔ frame.Encodable ∧ stream = frame.bytes ++ rest := by
  simp only [readFrame, bind_eq_ok, Prod.exists, takeBytes_eq_ok, pure, Except.pure,
    Except.ok.injEq, Prod.mk.injEq]
  constructor
  · rintro ⟨header, rest₁, ⟨hheader, rfl⟩, messageType, requestID, payloadLength, hdecode, payload,
      rest₂, ⟨rfl, rfl⟩, rfl, rfl⟩
    obtain ⟨rfl, hlength⟩ := (decodeHeader_eq_ok hheader).mp hdecode
    exact ⟨hlength, by simp [Frame.bytes]⟩
  · rintro ⟨hencodable, rfl⟩
    exact ⟨_, frame.payload ++ rest, ⟨length_encodeHeader _ _ _, by simp [Frame.bytes]⟩, _, _, _,
      (decodeHeader_eq_ok (length_encodeHeader _ _ _)).mpr ⟨rfl, hencodable⟩, frame.payload, rest,
      ⟨rfl, rfl⟩, rfl, rfl⟩

theorem Frame.decodeHeader_take (frame : Frame) (h : frame.Encodable) {data rest : Bytes}
    (hdata : data = frame.bytes ++ rest) :
    decodeHeader (data.take frameHeaderSize) =
      .ok (frame.messageType, frame.requestID, frame.payload.length) := by
  have hheader : data.take frameHeaderSize =
      encodeHeader frame.messageType frame.requestID frame.payload.length := by
    rw [hdata, Frame.bytes, append_assoc]
    exact List.take_left' (length_encodeHeader _ _ _)
  rw [hheader]
  exact (decodeHeader_eq_ok (length_encodeHeader _ _ _)).mpr ⟨rfl, h⟩

/-- The front of the buffer cannot become a frame. -/
def Malformed (data : Bytes) : Prop :=
  MagicMismatch data ∨
    frameHeaderSize ≤ data.length ∧ ∃ e, decodeHeader (data.take frameHeaderSize) = .error e

theorem not_magicMismatch_bytes (frame : Frame) (rest : Bytes) :
    ¬MagicMismatch (frame.bytes ++ rest) := by
  have hlength : frameMagic.length ≤ (frame.bytes ++ rest).length := by
    rw [length_append, frame.length_bytes]
    exact le_add_right (le_add_right (by decide))
  rw [MagicMismatch, not_not, min_eq_right hlength, take_length]
  simp only [Frame.bytes, encodeHeader, append_assoc]
  rw [take_left]

theorem readFrame_short {stream : Bytes} (h : stream.length < frameHeaderSize) :
    readFrame stream = .error .closedInHeader := by
  rw [readFrame, takeBytes, if_pos h]
  rfl

theorem readFrame_header {stream : Bytes} (h : frameHeaderSize ≤ stream.length) :
    readFrame stream = (do
      let (messageType, requestID, payloadLength) ← decodeHeader (stream.take frameHeaderSize)
      let (payload, rest) ← takeBytes .closedInPayload payloadLength (stream.drop frameHeaderSize)
      return (⟨messageType, requestID, payload⟩, rest)) := by
  rw [readFrame, takeBytes, if_neg (by omega)]
  rfl

theorem extractFrame_mismatch (h : MagicMismatch data) : ∃ e, extractFrame data = .error e := by
  rw [extractFrame, failIf, if_pos h]
  exact ⟨_, rfl⟩

theorem extractFrame_short (hmagic : ¬MagicMismatch data)
    (h : data.length < frameHeaderSize) : extractFrame data = .ok (none, data) := by
  rw [extractFrame, failIf, if_neg hmagic]
  simp only [bind, Except.bind, if_pos h]
  rfl

theorem extractFrame_header (hmagic : ¬MagicMismatch data) (h : frameHeaderSize ≤ data.length) :
    extractFrame data = (do
      let (messageType, requestID, payloadLength) ← decodeHeader (data.take frameHeaderSize)
      if data.length < frameHeaderSize + payloadLength then return (none, data)
      return (some ⟨messageType, requestID,
          subslice data frameHeaderSize (frameHeaderSize + payloadLength)⟩,
        data.drop (frameHeaderSize + payloadLength))) := by
  rw [extractFrame, failIf, if_neg hmagic]
  simp only [bind, Except.bind, if_neg (not_lt.mpr h)]

/-- **What `ExtractFrame` does with a buffer**: it fails when the front cannot become a frame,
waits when `ReadFrame` would find the stream closed, and takes off the frame that `ReadFrame` reads
otherwise. -/
theorem extractFrame_cases (data : Bytes) :
    (∃ e, extractFrame data = .error e) ∧ Malformed data ∨
    extractFrame data = .ok (none, data) ∧ ¬Malformed data ∧
      (readFrame data = .error .closedInHeader ∨ readFrame data = .error .closedInPayload) ∨
    ∃ frame rest, extractFrame data = .ok (some frame, rest) ∧ ¬Malformed data ∧
      readFrame data = .ok (frame, rest) := by
  by_cases hmagic : MagicMismatch data
  · exact .inl ⟨extractFrame_mismatch hmagic, .inl hmagic⟩
  rcases Nat.lt_or_ge data.length frameHeaderSize with hshort | hlong
  · refine .inr (.inl ⟨extractFrame_short hmagic hshort, ?_, .inl (readFrame_short hshort)⟩)
    rintro (h | ⟨h, -⟩)
    · exact hmagic h
    · omega
  rcases hdecode : decodeHeader (data.take frameHeaderSize) with e | fields
  · rw [extractFrame_header hmagic hlong, hdecode]
    exact .inl ⟨⟨e, rfl⟩, .inr ⟨hlong, e, hdecode⟩⟩
  obtain ⟨messageType, requestID, payloadLength⟩ := fields
  have hwell : ¬Malformed data := by
    rintro (h | ⟨-, e, he⟩)
    · exact hmagic h
    · rw [hdecode] at he
      cases he
  rw [extractFrame_header hmagic hlong, readFrame_header hlong, hdecode]
  simp only [bind, Except.bind, pure, Except.pure, takeBytes, length_drop]
  by_cases hpayload : data.length < frameHeaderSize + payloadLength
  · rw [if_pos hpayload, if_pos (by omega)]
    exact .inr (.inl ⟨rfl, hwell, .inr rfl⟩)
  rw [if_neg hpayload, if_neg (by omega)]
  refine .inr (.inr ⟨_, _, rfl, hwell, ?_⟩)
  simp only [subslice, drop_take, drop_drop, Nat.add_sub_cancel_left]

theorem not_malformed_bytes (h : frame.Encodable) (rest : Bytes) :
    ¬Malformed (frame.bytes ++ rest) := by
  rintro (hmagic | ⟨hlong, e, he⟩)
  · exact not_magicMismatch_bytes frame rest hmagic
  · have hread : readFrame (frame.bytes ++ rest) = .ok (frame, rest) :=
      readFrame_eq_ok.mpr ⟨h, rfl⟩
    rw [readFrame_header hlong, he] at hread
    cases hread

/-- `ExtractFrame` takes exactly the encoded frames off the buffer. -/
theorem extractFrame_eq_some {data rest : Bytes} :
    extractFrame data = .ok (some frame, rest) ↔
      frame.Encodable ∧ data = frame.bytes ++ rest := by
  rw [← readFrame_eq_ok]
  rcases extractFrame_cases data with ⟨⟨e, he⟩, hmalformed⟩ | ⟨hnone, -, hclosed⟩ |
    ⟨frame', rest', hextract, -, hread⟩
  · refine ⟨fun h => ?_, fun h => ?_⟩
    · rw [he] at h
      cases h
    · obtain ⟨hencodable, rfl⟩ := readFrame_eq_ok.mp h
      exact absurd hmalformed (not_malformed_bytes hencodable rest)
  · refine ⟨fun h => ?_, fun h => ?_⟩
    · rw [hnone] at h
      simp at h
    · rw [h] at hclosed
      simp at hclosed
  · rw [hextract, hread]
    simp

/-- An error, or a frame that is not complete, leaves no room for a frame at the front. -/
theorem extractFrame_eq_error : (∃ e, extractFrame data = .error e) ↔ Malformed data := by
  rcases extractFrame_cases data with ⟨herror, hmalformed⟩ | ⟨hnone, hwell, -⟩ |
    ⟨frame, rest, hextract, hwell, -⟩
  · exact iff_of_true herror hmalformed
  · exact iff_of_false (by rintro ⟨e, he⟩; rw [hnone] at he; cases he) hwell
  · exact iff_of_false (by rintro ⟨e, he⟩; rw [hextract] at he; cases he) hwell

/-! ### The parser is incremental -/

theorem Malformed.append (h : Malformed data) (more : Bytes) : Malformed (data ++ more) := by
  rcases h with hmagic | ⟨hlong, e, he⟩
  · left
    intro heq
    refine hmagic ?_
    -- the longer comparison contains the shorter one
    have hle : min data.length frameMagic.length ≤
        min (data ++ more).length frameMagic.length := by
      simp only [length_append]
      omega
    have htake := congrArg (List.take (min data.length frameMagic.length)) heq
    rw [take_take, take_take, min_eq_left hle,
      take_append_of_le_length (min_le_left _ _)] at htake
    exact htake
  · right
    rw [take_append_of_le_length hlong]
    exact ⟨by simp only [length_append]; omega, e, he⟩

theorem extractStep_eq_emit {data rest : Bytes} :
    extractStep data = .emit frame rest ↔ frame.Encodable ∧ data = frame.bytes ++ rest := by
  rw [← extractFrame_eq_some, extractStep]
  cases hextract : extractFrame data with
  | error e => simp
  | ok result =>
    obtain ⟨_ | frame', rest'⟩ := result <;> simp

theorem extractStep_eq_stop {data rest : Bytes} {u : Unit} :
    extractStep data = .stop u rest ↔ Malformed data ∧ rest = data := by
  rw [← extractFrame_eq_error, extractStep]
  cases hextract : extractFrame data with
  | error e => simp [eq_comm]
  | ok result =>
    obtain ⟨_ | frame', rest'⟩ := result <;> simp

/-- **What `ExtractFrame` decides stays decided as the buffer grows.** -/
theorem incremental_extractStep : Incremental extractStep where
  shrinking := by
    intro data frame rest h
    obtain ⟨-, rfl⟩ := extractStep_eq_emit.mp h
    rw [length_append, frame.length_bytes, frameHeaderSize]
    omega
  emit_append := by
    intro data frame rest more h
    obtain ⟨hencodable, rfl⟩ := extractStep_eq_emit.mp h
    exact extractStep_eq_emit.mpr ⟨hencodable, by rw [append_assoc]⟩
  stop_append := by
    intro data u rest more h
    obtain ⟨hmalformed, rfl⟩ := extractStep_eq_stop.mp h
    exact extractStep_eq_stop.mpr ⟨hmalformed.append more, rfl⟩

theorem extractChunks_eq_scan (chunks : List Bytes) :
    extractChunks chunks = scan extractStep chunks.flatten := by
  have hempty : scan extractStep [] = ⟨[], [], none⟩ := by decide
  rw [extractChunks, ← hempty, foldl_feed incremental_extractStep, nil_append]

/-! ### The incremental parser and the blocking reader -/

/-- The error rejects a header; the other errors of `ReadFrame` report that the connection was
closed inside a frame. -/
def FramingError.Rejects : FramingError → Prop
  | .closedInHeader | .closedInPayload => False
  | _ => True

theorem decodeHeader_rejects {e} (h : decodeHeader header = .error e) : e.Rejects := by
  simp only [decodeHeader, failIf, bind, Except.bind, pure, Except.pure] at h
  split_ifs at h <;> cases h <;> trivial

/-- An error of `ReadFrame` that rejects a header is one that the incremental parser makes; the
incremental parser fails earlier only when the magic is wrong. -/
theorem readFrame_error_iff {e} (h : readFrame data = .error e) :
    Malformed data ↔ e.Rejects ∨ e = .closedInHeader ∧ MagicMismatch data := by
  rcases Nat.lt_or_ge data.length frameHeaderSize with hshort | hlong
  · rw [readFrame_short hshort] at h
    cases h
    simp only [FramingError.Rejects, Malformed, true_and, false_or]
    exact or_iff_left fun hlong => by omega
  rcases hdecode : decodeHeader (data.take frameHeaderSize) with e' | fields
  · rw [readFrame_header hlong, hdecode] at h
    cases h
    exact iff_of_true (.inr ⟨hlong, _, hdecode⟩) (.inl (decodeHeader_rejects hdecode))
  obtain ⟨messageType, requestID, payloadLength⟩ := fields
  have hheader := ((decodeHeader_eq_ok (by simp [hlong])).mp hdecode).1
  have hclosed : e = .closedInPayload := by
    rw [readFrame_header hlong, hdecode] at h
    simp only [bind, Except.bind, takeBytes] at h
    split_ifs at h
    · exact (Except.error.inj h).symm
    · cases h
  have hmagic : ¬MagicMismatch data := by
    rw [MagicMismatch, not_not, min_eq_right (show frameMagic.length ≤ data.length from
      (show frameMagic.length ≤ frameHeaderSize by decide).trans hlong), take_length]
    have htake := congrArg (List.take frameMagic.length) hheader
    rw [take_take, min_eq_left (by decide)] at htake
    rw [htake]
    simp only [encodeHeader, append_assoc]
    exact take_left
  subst hclosed
  refine iff_of_false ?_ (by simp [FramingError.Rejects])
  rintro (h' | ⟨-, e', he'⟩)
  · exact hmagic h'
  · rw [hdecode] at he'
    cases he'

theorem readStep_eq_emit {stream rest : Bytes} :
    readStep stream = .emit frame rest ↔ readFrame stream = .ok (frame, rest) := by
  unfold readStep
  cases readFrame stream with
  | error e => simp
  | ok result => simp [Prod.ext_iff]

theorem shrinking_readStep : Shrinking readStep := by
  intro stream frame rest h
  obtain ⟨-, rfl⟩ := readFrame_eq_ok.mp (readStep_eq_emit.mp h)
  rw [length_append, frame.length_bytes, frameHeaderSize]
  omega

/-- **The incremental parser agrees with the blocking reader** on the frames and on what is left,
and fails where the rest cannot become a frame. -/
theorem scan_extractStep (stream : Bytes) :
    (scan extractStep stream).events = (readFrames stream).events ∧
    (scan extractStep stream).rest = (readFrames stream).rest ∧
    ((scan extractStep stream).stop = some () ↔ Malformed (readFrames stream).rest) ∧
    ∃ e, (readFrames stream).stop = some e ∧ readFrame (readFrames stream).rest = .error e := by
  -- by induction on the length of the stream, one frame at a time
  induction hlen : stream.length using Nat.strongRecOn generalizing stream with
  | _ n ih =>
    cases hread : readFrame stream with
    | error e =>
      have hstop : readStep stream = .stop e stream := by rw [readStep, hread]
      have hwhole : readFrames stream = ⟨[], stream, some e⟩ := scan_stop hstop
      rw [hwhole]
      by_cases hmalformed : Malformed stream
      · rw [scan_stop (extractStep_eq_stop.mpr ⟨hmalformed, rfl⟩)]
        exact ⟨rfl, rfl, iff_of_true rfl hmalformed, e, rfl, hread⟩
      have hwait : extractStep stream = .wait := by
        cases hstep : extractStep stream with
        | wait => rfl
        | stop u rest => exact absurd (extractStep_eq_stop.mp hstep).1 hmalformed
        | emit frame rest =>
          rw [readFrame_eq_ok.mpr (extractStep_eq_emit.mp hstep)] at hread
          cases hread
      rw [scan_wait hwait]
      exact ⟨rfl, rfl, iff_of_false (by simp) hmalformed, e, rfl, hread⟩
    | ok result =>
      obtain ⟨frame, rest⟩ := result
      have hemit := extractStep_eq_emit.mpr (readFrame_eq_ok.mp hread)
      have hwhole : readFrames stream = (readFrames rest).cons frame :=
        scan_emit shrinking_readStep (readStep_eq_emit.mpr hread)
      obtain ⟨hevents, hrest, hstop, herror⟩ :=
        ih _ (hlen ▸ incremental_extractStep.shrinking hemit) rest rfl
      rw [hwhole, scan_emit incremental_extractStep.shrinking hemit]
      exact ⟨congrArg (frame :: ·) hevents, hrest, hstop, herror⟩

theorem mapM_encodeFrame {frames : List Frame} {encoded}
    (h : frames.mapM encodeFrame = .ok encoded) :
    (∀ frame ∈ frames, frame.Encodable) ∧ encoded = frames.map Frame.bytes := by
  induction frames generalizing encoded with
  | nil =>
    cases h
    simp
  | cons frame frames ih =>
    simp only [mapM_cons, bind_eq_ok, encodeFrame_eq_ok, pure, Except.pure,
      Except.ok.injEq] at h
    obtain ⟨bytes, ⟨hframe, rfl⟩, rest, hrest, rfl⟩ := h
    obtain ⟨hframes, rfl⟩ := ih hrest
    exact ⟨forall_mem_cons.mpr ⟨hframe, hframes⟩, rfl⟩

theorem scan_encoded {frames} (h : ∀ frame ∈ frames, frame.Encodable) :
    scan extractStep (frames.map Frame.bytes).flatten = ⟨frames, [], none⟩ := by
  induction frames with
  | nil => decide
  | cons frame frames ih =>
    obtain ⟨hframe, hframes⟩ := forall_mem_cons.mp h
    have hemit : extractStep ((frame :: frames).map Frame.bytes).flatten =
        .emit frame (frames.map Frame.bytes).flatten :=
      extractStep_eq_emit.mpr ⟨hframe, rfl⟩
    rw [scan_emit incremental_extractStep.shrinking hemit, ih hframes]
    rfl

/-- **The frames of a stream do not depend on how it is cut.** The incremental parser yields the
frames that `ReadFrame` reads from the whole stream, leaves what stands behind the last of them,
and fails at the frame where `ReadFrame` rejects a header; it fails without such a rejection only
when the stream ends inside a header whose magic is already wrong. An incomplete frame leaves the
buffer unchanged, and encoded frames come back with nothing left over. -/
theorem frames_chunk_independent (chunks : List Bytes) :
    (extractChunks chunks).events = (readFrames chunks.flatten).events ∧
    (extractChunks chunks).rest = (readFrames chunks.flatten).rest ∧
    (∃ e, (readFrames chunks.flatten).stop = some e ∧
      ((extractChunks chunks).stop = some () ↔
        e.Rejects ∨ e = .closedInHeader ∧ MagicMismatch (readFrames chunks.flatten).rest)) ∧
    (∀ buffer buffer', extractFrame buffer = .ok (none, buffer') → buffer' = buffer) ∧
    ∀ frames encoded, frames.mapM encodeFrame = .ok encoded → chunks.flatten = encoded.flatten →
      extractChunks chunks = ⟨frames, [], none⟩ := by
  rw [extractChunks_eq_scan]
  obtain ⟨hevents, hrest, hstop, e, he, hread⟩ := scan_extractStep chunks.flatten
  refine ⟨hevents, hrest, ⟨e, he, hstop.trans (readFrame_error_iff hread)⟩, ?_, ?_⟩
  · intro buffer buffer' h
    rcases extractFrame_cases buffer with ⟨⟨e, he⟩, -⟩ | ⟨hnone, -⟩ | ⟨frame, rest, hsome, -⟩
    · rw [he] at h
      cases h
    · rw [hnone] at h
      exact (congrArg Prod.snd (Except.ok.inj h)).symm
    · rw [hsome] at h
      simp at h
  · intro frames encoded hencoded hchunks
    obtain ⟨hframes, rfl⟩ := mapM_encodeFrame hencoded
    rw [hchunks, scan_encoded hframes]

/-- A frame whose payload is the magic, cut inside its own magic and inside its payload. -/
theorem magic_payload_chunks :
    [⟨2, 7, frameMagic⟩].mapM encodeFrame = .ok [Frame.bytes ⟨2, 7, frameMagic⟩] ∧
    extractChunks [(Frame.bytes ⟨2, 7, frameMagic⟩).take 3,
        subslice (Frame.bytes ⟨2, 7, frameMagic⟩) 3 18,
        (Frame.bytes ⟨2, 7, frameMagic⟩).drop 18] = ⟨[⟨2, 7, frameMagic⟩], [], none⟩ :=
  ⟨by decide, (frames_chunk_independent _).2.2.2.2 _ [Frame.bytes ⟨2, 7, frameMagic⟩]
    (by decide) (by decide)⟩

/-- **No byte is lost**: encoding the frames of a stream, however it is cut, gives back all but the
rest. -/
theorem extractChunks_conserves (chunks : List Bytes) :
    let o := extractChunks chunks
    (∀ frame ∈ o.events, encodeFrame frame = .ok frame.bytes) ∧
      (o.events.map Frame.bytes).flatten ++ o.rest = chunks.flatten := by
  rw [extractChunks_eq_scan, scan]
  generalize chunks.flatten = stream
  generalize stream.length + 1 = fuel
  induction fuel generalizing stream with
  | zero => simp [scanRounds]
  | succ fuel ih =>
    rw [scanRounds]
    cases hstep : extractStep stream with
    | wait => simp
    | stop _ rest => simp [(extractStep_eq_stop.mp hstep).2]
    | emit frame rest =>
      obtain ⟨hframe, rfl⟩ := extractStep_eq_emit.mp hstep
      obtain ⟨hframes, hrest⟩ := ih rest
      refine ⟨forall_mem_cons.mpr ⟨encodeFrame_eq_ok.mpr ⟨hframe, rfl⟩, hframes⟩, ?_⟩
      simpa [Outcome.cons] using hrest

end Carcer.Guest
