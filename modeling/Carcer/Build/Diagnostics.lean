import Carcer.Guest.Protocol
import Carcer.Seed.HostRelay
import Carcer.Wire.ValidText

/-!
# Diagnostics of a build

What a build prints goes to a log of bounded length, and the text of the log, with a message before
it, is cut to a limit and sent to the guest as the output of a host response. The cut may fall
inside of a character, and what is left of the character is replaced by a longer one.

## Main definitions

* `DiagnosticLog`, `DiagnosticLog.write`, `DiagnosticLog.text`: the log
* `truncateDiagnostic`: a text is cut
* `Truncates`: a result is a valid text within the limit that begins the full text, and the guest's
  relay forwards it
* `FitsLimit`: the texts that are cut well

## Main results

* `truncates_iff`: the result is as it should be exactly for those texts
-/

namespace Carcer.Build

open Carcer.Wire Carcer.Guest Carcer.Seed List

/-! ### The source -/

def defaultDiagnosticLimit : ℕ := 64 * 1024

/-- The limit of a normalized configuration. -/
def normalizedDiagnosticLimit (configured : ℕ) : ℕ :=
  if configured = 0 then defaultDiagnosticLimit
  else if configured > defaultDiagnosticLimit then defaultDiagnosticLimit
  else configured

def truncateDiagnostic (text : Bytes) (limit : ℕ) : Bytes :=
  if limit = 0 then []
  else if text.length ≤ limit then text
  else toValidUTF8 (text.take limit)

/-- `diagnosticLog`: what the file holds, if there is one; the log alone writes to it. -/
structure DiagnosticLog where
  file : Option Bytes
  limit : ℕ
  used : ℕ
  used_eq : ∀ content ∈ file, content.length = used
  bounded : used ≤ limit

namespace DiagnosticLog

/-- The log of a build that begins. -/
def new (limit : ℕ) : DiagnosticLog := ⟨some [], limit, 0, by simp, Nat.zero_le _⟩

/-- `Write`; the file takes the first `written` bytes of what it is given. -/
def write (d : DiagnosticLog) (data : Bytes) (written : ℕ) : DiagnosticLog :=
  match hfile : d.file with
  | none => d
  | some content =>
    let taken := (data.take (d.limit - d.used)).take written
    { d with
      file := some (content ++ taken)
      used := d.used + taken.length
      used_eq := by
        intro _ hcontent
        cases hcontent
        rw [length_append, d.used_eq content hfile]
      bounded := by
        have hbounded := d.bounded
        simp only [taken, length_take]
        omega }

/-- The log after a list of writes. -/
def writeAll (d : DiagnosticLog) (writes : List (Bytes × ℕ)) : DiagnosticLog :=
  writes.foldl (fun d data => d.write data.1 data.2) d

/-- The text that is cut; `readable` says that the file is read back without an error. -/
def fullText (d : DiagnosticLog) (message : Bytes) (readable : Bool) : Bytes :=
  match d.file with
  | none => message
  | some content =>
    if ¬readable then message
    else
      let text := toValidUTF8 (content.take d.limit)
      if message = [] then text else message ++ 0x0a :: text

def text (d : DiagnosticLog) (message : Bytes) (readable : Bool) : Bytes :=
  truncateDiagnostic (d.fullText message readable) d.limit

end DiagnosticLog

/-! ### What should come out -/

/-- **A response with this output is forwarded** by the guest's relay as it is. -/
def Relayed (output : Bytes) : Prop :=
  ∀ (hostRequestID : UInt32) (status : ℕ), hostRequestID ≠ 0 → status ≤ 2 →
    ∃ (frame : Frame) (response : RawFrame),
      createHostServiceResponse hostRequestID status output = .ok frame ∧
      encodeFrame frame = .ok response.bytes ∧ response.header.Accepted ∧
      relayedPayload hostRequestID response = frame.payload

/-- **A text is cut as it should be.** -/
structure Truncates (text : Bytes) (limit : ℕ) (result : Bytes) : Prop where
  valid : utf8Valid result = true
  length_le : result.length ≤ limit
  /-- Up to the replacement of invalid bytes it begins the full text. -/
  begins : ∃ n, result = toValidUTF8 (text.take n)
  relayed : limit ≤ hostResponseOutputMax → Relayed result

/-- A text that fits is valid; of one that does not, the bytes before the cut that are invalid are
at least three times as many as the runs they form. -/
def FitsLimit (text : Bytes) (limit : ℕ) : Prop :=
  if text.length ≤ limit then utf8Valid text = true
  else 3 * invalidRuns (text.take limit) ≤ invalidBytes (text.take limit)

instance (text : Bytes) (limit : ℕ) : Decidable (FitsLimit text limit) := by
  unfold FitsLimit
  infer_instance

/-! ### The relay -/

/-- A frame as it arrives at the guest. -/
def received (frame : Frame) (h : frame.payload.length ≤ maxPayloadSize) : RawFrame where
  header := ⟨ascii "CXOS", rfl, 1, frame.messageType, frame.requestID,
    UInt32.ofNat frame.payload.length⟩
  payload := frame.payload
  length_eq := by
    have hlt : frame.payload.length < 2 ^ 32 := h.trans_lt (by decide)
    rw [UInt32.toNat_ofNat_of_lt' (by simpa using hlt)]

theorem encodeFrame_received (frame : Frame) (h : frame.payload.length ≤ maxPayloadSize) :
    encodeFrame frame = .ok (received frame h).bytes := by
  have hlt : frame.payload.length < 2 ^ 32 := h.trans_lt (by decide)
  have hpass : (failIf (frame.payload.length > maxPayloadSize) FramingError.payloadTooLarge) =
      .ok () := failIf_eq_ok.mpr (not_lt.mpr h)
  rw [encodeFrame, hpass]
  simp only [received, RawFrame.bytes, RawHeader.bytes, encodeHeader, frameMagic,
    UInt32.toNat_ofNat_of_lt' (show frame.payload.length < UInt32.size by simpa using hlt),
    append_assoc]
  rfl

/-- An output goes through the relay if it is not longer than the relay takes. -/
theorem relayed_of_length_le {output : Bytes} (h : output.length ≤ hostResponseOutputMax) :
    Relayed output := by
  intro hostRequestID status hid hstatus
  have hmax : hostResponseOutputMax = 65536 := rfl
  have hsize : maxPayloadSize = 16777216 := rfl
  let frame : Frame := ⟨Guest.hostServiceResponse, hostRequestID, leBytes 4 status ++ output⟩
  have hlength : frame.payload.length = output.length + 4 := by simp [frame, Nat.add_comm]
  have hpayload : frame.payload.length ≤ maxPayloadSize := by omega
  have hcreate : createHostServiceResponse hostRequestID status output = .ok frame := by
    have hnonzero : failIf (hostRequestID = 0) HostResponseError.zeroRequestID = .ok () :=
      failIf_eq_ok.mpr hid
    have hsmall : failIf (output.length > maxPayloadSize - 4) HostResponseError.payloadTooLarge =
        .ok () := failIf_eq_ok.mpr (by omega)
    rw [createHostServiceResponse, hnonzero, hsmall]
    rfl
  refine ⟨frame, received frame hpayload, hcreate, encodeFrame_received frame hpayload, ?_, ?_⟩
  · have hword := (received frame hpayload).length_eq
    refine ⟨?_, rfl, rfl⟩
    rw [← hword]
    exact hpayload
  · have hstatusWord : leValue ((leBytes 4 status ++ output).take 4) ≤ 2 := by
      rw [List.take_left' (by simp), leValue_leBytes (by omega)]
      exact hstatus
    have hforwarded : Forwarded hostRequestID (received frame hpayload) := by
      refine ⟨rfl, rfl, ?_, hstatusWord, ?_⟩
      · change 4 ≤ frame.payload.length
        omega
      · change frame.payload.length - 4 ≤ hostResponseOutputMax
        omega
    rw [relayedPayload, if_pos hforwarded]
    rfl

theorem not_relayed_of_lt {output : Bytes} (h : hostResponseOutputMax < output.length) :
    ¬Relayed output := by
  intro hrelayed
  obtain ⟨frame, response, hcreate, -, -, hpayload⟩ := hrelayed 1 0 (by decide) (by decide)
  simp only [createHostServiceResponse, bind_eq_ok, failIf_eq_ok, exists_const, pure, Except.pure,
    Except.ok.injEq] at hcreate
  obtain ⟨-, -, rfl⟩ := hcreate
  have hlength := congrArg List.length hpayload
  simp only [length_append, length_leBytes] at hlength
  unfold relayedPayload at hlength
  split_ifs at hlength with hforwarded
  · have hshort := hforwarded.2.2.2.2
    omega
  · rw [length_leBytes] at hlength
    omega

/-! ### The cut -/

/-- **A text is cut as it should be exactly when it fits the limit.** -/
theorem truncates_truncateDiagnostic_iff (text : Bytes) {limit : ℕ} (h : 0 < limit) :
    Truncates text limit (truncateDiagnostic text limit) ↔ FitsLimit text limit := by
  have hpos : ¬limit = 0 := by omega
  unfold truncateDiagnostic FitsLimit
  rw [if_neg hpos]
  by_cases hfits : text.length ≤ limit
  · rw [if_pos hfits, if_pos hfits]
    constructor
    · exact fun htruncates => htruncates.valid
    · intro hvalid
      refine ⟨hvalid, hfits, ⟨text.length, ?_⟩, fun hlimit => ?_⟩
      · rw [take_length, toValidUTF8_of_valid hvalid]
      · exact relayed_of_length_le (hfits.trans hlimit)
  · rw [if_neg hfits, if_neg hfits]
    have hlength := length_toValidUTF8 (text.take limit)
    rw [length_take, min_eq_left (by omega)] at hlength
    constructor
    · intro htruncates
      have hle := htruncates.length_le
      omega
    · intro hruns
      have hle : (toValidUTF8 (text.take limit)).length ≤ limit := by omega
      exact ⟨utf8Valid_toValidUTF8 _, hle, ⟨limit, rfl⟩,
        fun hlimit => relayed_of_length_le (hle.trans hlimit)⟩

theorem normalizedDiagnosticLimit_bounds (configured : ℕ) :
    0 < normalizedDiagnosticLimit configured ∧
      normalizedDiagnosticLimit configured ≤ hostResponseOutputMax := by
  have hdefault : defaultDiagnosticLimit = 65536 := rfl
  have hmax : hostResponseOutputMax = 65536 := rfl
  unfold normalizedDiagnosticLimit
  split_ifs <;> omega

theorem DiagnosticLog.limit_write (d : DiagnosticLog) (data : Bytes) (written : ℕ) :
    (d.write data written).limit = d.limit := by
  unfold write
  split <;> rfl

theorem DiagnosticLog.limit_writeAll (d : DiagnosticLog) (writes : List (Bytes × ℕ)) :
    (d.writeAll writes).limit = d.limit := by
  induction writes generalizing d with
  | nil => rfl
  | cons data writes ih => exact (ih _).trans (d.limit_write _ _)

/-- **The diagnostics of a build are cut as they should be exactly when they fit**: for a text and a
limit, and for the text of a log with a message before it. The relay forwards those of every build
that fit, whatever limit is configured. -/
theorem truncates_iff (text : Bytes) (limit : ℕ) (d : DiagnosticLog) (message : Bytes)
    (readable : Bool) :
    (0 < limit → (Truncates text limit (truncateDiagnostic text limit) ↔ FitsLimit text limit)) ∧
    (0 < d.limit →
      (Truncates (d.fullText message readable) d.limit (d.text message readable) ↔
        FitsLimit (d.fullText message readable) d.limit)) ∧
    (∀ (configured : ℕ) (writes : List (Bytes × ℕ)),
      d = (DiagnosticLog.new (normalizedDiagnosticLimit configured)).writeAll writes →
      FitsLimit (d.fullText message readable) d.limit → Relayed (d.text message readable)) := by
  refine ⟨fun h => truncates_truncateDiagnostic_iff text h, fun h =>
    truncates_truncateDiagnostic_iff (d.fullText message readable) h, ?_⟩
  intro configured writes hd hfits
  obtain ⟨hpos, hle⟩ := normalizedDiagnosticLimit_bounds configured
  have hlimit : d.limit = normalizedDiagnosticLimit configured := by
    rw [hd, DiagnosticLog.limit_writeAll]
    rfl
  rw [← hlimit] at hpos hle
  exact ((truncates_truncateDiagnostic_iff _ hpos).mpr hfits).relayed hle

theorem truncates_abcd :
    FitsLimit (ascii "abcd") 3 ∧ (ascii "abcd").length = 4 ∧
      Truncates (ascii "abcd") 3 (truncateDiagnostic (ascii "abcd") 3) := by
  have hfits : FitsLimit (ascii "abcd") 3 ∧ (ascii "abcd").length = 4 := by decide +kernel
  exact ⟨hfits.1, hfits.2,
    ((truncates_iff (ascii "abcd") 3 (DiagnosticLog.new 3) [] true).1 (by decide)).mpr hfits.1⟩

/-- A text of 65535 letters with one character of two bytes behind them. -/
def cutText : Bytes := List.replicate 65535 0x61 ++ [0xc3, 0xa9]

theorem utf8Valid_letters (n : ℕ) : utf8Valid (List.replicate n (0x61 : UInt8)) = true := by
  refine utf8Valid_of_ascii fun byte hbyte => ?_
  obtain rfl := eq_of_mem_replicate hbyte
  decide

theorem truncateDiagnostic_cutText :
    truncateDiagnostic cutText defaultDiagnosticLimit =
      List.replicate 65535 0x61 ++ replacementCharacter := by
  have hlength : (List.replicate 65535 (0x61 : UInt8)).length = 65535 := length_replicate
  have htake : cutText.take defaultDiagnosticLimit =
      List.replicate 65535 0x61 ++ [0xc3] := by
    have hcut : [(0xc3 : UInt8), 0xa9] = [0xc3] ++ [0xa9] := rfl
    rw [cutText, hcut, ← append_assoc, List.take_left']
    rw [length_append, hlength]
    rfl
  have hlong : ¬cutText.length ≤ defaultDiagnosticLimit := by
    rw [cutText, length_append, hlength]
    decide
  rw [truncateDiagnostic, if_neg (by decide), if_neg hlong, htake,
    toValidUTF8_append (utf8Valid_letters _)]
  rfl

/-- The cut falls inside of the last character, the result is two bytes too long, and the guest's
relay replaces the response by a failure. -/
theorem cutText_not_truncated :
    utf8Valid cutText = true ∧
      (truncateDiagnostic cutText defaultDiagnosticLimit).length = defaultDiagnosticLimit + 2 ∧
      ¬Relayed (truncateDiagnostic cutText defaultDiagnosticLimit) ∧
      ¬Truncates cutText defaultDiagnosticLimit
        (truncateDiagnostic cutText defaultDiagnosticLimit) := by
  have hlength : (truncateDiagnostic cutText defaultDiagnosticLimit).length =
      defaultDiagnosticLimit + 2 := by
    rw [truncateDiagnostic_cutText, length_append, length_replicate]
    rfl
  refine ⟨?_, hlength, not_relayed_of_lt ?_, fun h => ?_⟩
  · rw [cutText, utf8Valid_append (utf8Valid_letters _)]
    decide
  · rw [hlength]
    decide
  · have hle := h.length_le
    omega

end Carcer.Build
