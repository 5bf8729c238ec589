import Carcer.Machine.Checked
import Carcer.Wire.Bytes

/-!
# The serial port and the frame writers of the seed

What `seed/serial.c` and the frame writers of `seed/protocol.c` put on the port. Every function
takes the bytes that were written before it and returns them with its own behind.

## Main definitions

* `serialWriteBytes`: the bytes behind a pointer
* `frameSendHeader`, `frameWriteU16`, `frameWriteU32`: the parts of a frame
-/

namespace Carcer.Seed

open Carcer.Machine Carcer.Wire

def frameMaxPayload : ℕ := 16 * 1024 * 1024

def frameProtocolVersion : ℕ := 1

def invokeToolResponse : ℕ := 0x8002

def serialWriteBytes (data : ByteSource) (length : ℕ) (out : Bytes) : Checked Bytes :=
  forRange 0 length (fun index out => do return out ++ [← data index]) out

def frameWriteU16 (value : ℕ) (out : Bytes) : Bytes := out ++ leBytes 2 value

def frameWriteU32 (value : ℕ) (out : Bytes) : Bytes := out ++ leBytes 4 value

def frameSendHeader (messageType requestID payloadLength : ℕ) (out : Bytes) : Bytes :=
  out ++ ascii "CXOS" ++ leBytes 2 frameProtocolVersion ++ leBytes 2 messageType ++
    leBytes 4 requestID ++ leBytes 4 payloadLength

theorem serialWriteBytes_eq {data} {bytes : Bytes} (h : Points data bytes)
    {length : ℕ} (hlength : length = bytes.length) (out : Bytes) :
    serialWriteBytes data length out = .ok (out ++ bytes) := by
  subst hlength
  have hround : ∀ i < bytes.length, ∀ out : Bytes,
      (do return out ++ [← data i] : Checked Bytes) = .ok (out ++ [bytes.getD i 0]) := by
    intro i hi out
    rw [h i hi, ok_bind, List.getD_eq_getElem _ _ hi]
    rfl
  rw [serialWriteBytes, forRange_append hround, ← List.map_eq_flatMap]
  congr 2
  refine List.ext_getElem (by simp) fun i hi hi' => ?_
  simp [hi']

end Carcer.Seed
