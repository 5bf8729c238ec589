import Carcer.Guest.Protocol
import Carcer.Seed.Tools

/-!
# The invocation parser of the seed

`parse_invocation` of `seed/tools.c` takes a tool call apart in place, with a check in front of
every read. The harness builds the payload with `EncodeInvokeRequest`; this module compares the two.

## Main definitions

* `readU16Le`, `readU32Le`: the words of the source
* `parseInvocation`: the function of the source
* `Invocation.call`: the name and the arguments of an invocation

## Main results

* `parseInvocation_returns`: the parser meets no fault, and finds the call that the payload holds
* `parseInvocation_iff_encoded`: it accepts the payloads of the encoder, and nothing else
-/

namespace Carcer.Seed

open Carcer.Machine Carcer.Wire List

/-! ### Words -/

def readU16Le (bytes : ByteSource) : Checked ℕ := do
  return (← bytes 0).toNat ||| ((← bytes 1).toNat <<< 8)

def readU32Le (bytes : ByteSource) : Checked ℕ := do
  return (← bytes 0).toNat ||| ((← bytes 1).toNat <<< 8) ||| ((← bytes 2).toNat <<< 16) |||
    ((← bytes 3).toNat <<< 24)

theorem or_shiftLeft {a k : ℕ} (h : a < 2 ^ k) (b : ℕ) : a ||| (b <<< k) = a + 2 ^ k * b := by
  rw [Nat.or_comm, ← Nat.shiftLeft_add_eq_or_of_lt h, Nat.shiftLeft_eq, Nat.add_comm, Nat.mul_comm]

section Words

variable {source : ByteSource} {bytes : Bytes} (hsource : Points source bytes)
include hsource

theorem readU16Le_eq (hfit : 2 ≤ bytes.length) :
    readU16Le source = .ok (leValue (bytes.take 2)) := by
  obtain ⟨b₀, b₁, rest, rfl⟩ : ∃ b₀ b₁ rest, bytes = b₀ :: b₁ :: rest := by
    match bytes, hfit with
    | b₀ :: b₁ :: rest, _ => exact ⟨b₀, b₁, rest, rfl⟩
  have h₀ := b₀.toNat_lt
  unfold readU16Le
  rw [hsource 0 (by simp), hsource 1 (by simp)]
  simp only [ok_bind, getElem_cons_zero, getElem_cons_succ]
  rw [or_shiftLeft h₀]
  refine congrArg Except.ok ?_
  simp only [take_succ_cons, take_zero, leValue]
  omega

theorem readU32Le_eq (hfit : 4 ≤ bytes.length) :
    readU32Le source = .ok (leValue (bytes.take 4)) := by
  obtain ⟨b₀, b₁, b₂, b₃, rest, rfl⟩ :
      ∃ b₀ b₁ b₂ b₃ rest, bytes = b₀ :: b₁ :: b₂ :: b₃ :: rest := by
    match bytes, hfit with
    | b₀ :: b₁ :: b₂ :: b₃ :: rest, _ => exact ⟨b₀, b₁, b₂, b₃, rest, rfl⟩
  have h₀ := b₀.toNat_lt
  have h₁ := b₁.toNat_lt
  have h₂ := b₂.toNat_lt
  unfold readU32Le
  rw [hsource 0 (by simp), hsource 1 (by simp), hsource 2 (by simp), hsource 3 (by simp)]
  simp only [ok_bind, getElem_cons_zero, getElem_cons_succ]
  have h₁' : b₀.toNat + 2 ^ 8 * b₁.toNat < 2 ^ 16 := by omega
  have h₂' : b₀.toNat + 2 ^ 8 * b₁.toNat + 2 ^ 16 * b₂.toNat < 2 ^ 24 := by omega
  rw [or_shiftLeft h₀, or_shiftLeft h₁', or_shiftLeft h₂']
  refine congrArg Except.ok ?_
  simp only [take_succ_cons, take_zero, leValue]
  omega

end Words

/-! ### The parser -/

/-- A part of a payload, from an offset on. -/
def Buffer.slice (payload : Buffer) (offset length : ℕ) : Buffer :=
  ⟨(payload.bytes.drop offset).take length, by
    have := payload.length_lt
    simp
    omega⟩

/-- The next argument is stored: the array has `MAX_TOOL_ARGUMENTS` cells. -/
def Invocation.store (invocation : Invocation) (index : ℕ) (argument : Buffer) :
    Checked Invocation :=
  if h : invocation.arguments.length < 3 then
    .ok ⟨invocation.name, invocation.arguments ++ [argument], by simp; omega⟩
  else .error (.indexOutOfRange index 3)

/-- One round of the loop of `parse_invocation`, with the offset and what was found so far. -/
def parseArgument (payload : Buffer) (index : ℕ) (found : ℕ × Invocation) :
    Checked (Round (ℕ × Invocation) Unit) := do
  let (offset, invocation) := found
  if (← subU32 payload.length offset) < 4 then return .stop ()
  let argumentLength ← readU32Le fun index => payload.source (offset + index)
  let offset ← addU32 offset 4
  if argumentLength > (← subU32 payload.length offset) then return .stop ()
  let invocation ← invocation.store index (payload.slice offset argumentLength)
  return .next (← addU32 offset argumentLength, invocation)

/-- The part of `parse_invocation` behind the name. -/
def parseRest (payload name : Buffer) (offset : ℕ) : Checked (Option Invocation) := do
  if (← subU32 payload.length offset) < 2 then return none
  let argumentCount ← readU16Le fun index => payload.source (offset + index)
  let offset ← addU32 offset 2
  if argumentCount > 3 then return none
  match ← scanRange 0 argumentCount (parseArgument payload) (offset, ⟨name, [], by decide⟩) with
  | .stop () => return none
  | .next (offset, invocation) =>
    if offset = payload.length then return some invocation
    return none

/-- `parse_invocation`: the invocation, or `none` when it fails. -/
def parseInvocation (payload : Buffer) : Checked (Option Invocation) := do
  if payload.length < 2 then return none
  let nameLength ← readU16Le payload.source
  let offset := 2
  if nameLength = 0 ∨ nameLength > 255 ∨ nameLength > (← subU32 payload.length offset) then
    return none
  let name := payload.slice offset nameLength
  if !(← validUtf8 name.source name.length) then return none
  parseRest payload name (← addU32 offset nameLength)

/-- The name and the arguments of an invocation. -/
def Invocation.call (invocation : Invocation) : Bytes × List Bytes :=
  (invocation.name.bytes, invocation.arguments.map Buffer.bytes)

/-- The parser reports no more than that it fails. -/
def parseErrors : CallErrors Unit := ⟨(), (), (), (), (), (), (), (), (), ()⟩

/-- The bounds checks of the loop are those of taking the arguments off what is left. -/
theorem parseArguments_returns (payload : Buffer) (count index offset : ℕ) (invocation : Invocation)
    (hoffset : offset ≤ payload.length) (hcells : invocation.arguments.length + count ≤ 3) :
    Returns (loopScan (parseArgument payload) count index (offset, invocation)) fun round =>
      match takeArguments () () count (payload.bytes.drop offset) with
      | .error () => round = .stop ()
      | .ok (arguments, rest) => ∃ invocation' : Invocation,
          round = .next (payload.length - rest.length, invocation') ∧
          rest.length ≤ payload.length ∧
          invocation'.call = (invocation.call.1, invocation.call.2 ++ arguments) := by
  have hword := payload.length_lt
  have hlen : payload.length = payload.bytes.length := rfl
  induction count generalizing index offset invocation with
  | zero =>
    have hdrop : (payload.bytes.drop offset).length = payload.length - offset := by simp [hlen]
    refine returns_ok.mpr ⟨invocation, ?_, by omega, by simp⟩
    rw [hdrop, Nat.sub_sub_self hoffset]
  | succ count ih =>
    have hdrop : (payload.bytes.drop offset).length = payload.length - offset := by simp [hlen]
    rw [loopScan, parseArgument, takeArguments, takeBytes]
    simp only
    rw [subU32_eq hoffset, ok_bind, hdrop]
    by_cases hshort : payload.length - offset < 4
    · rw [if_pos hshort, if_pos hshort]
      exact returns_ok.mpr rfl
    rw [if_neg hshort, if_neg hshort, readU32Le_eq (payload.points.drop offset) (by omega), ok_bind,
      addU32_eq (by omega), ok_bind, subU32_eq (by omega), ok_bind]
    simp only [ok_bind]
    rw [drop_drop, takeBytes, length_drop, ← hlen]
    by_cases hlong : leValue ((payload.bytes.drop offset).take 4) > payload.length - (offset + 4)
    · rw [if_pos hlong, if_pos hlong]
      exact returns_ok.mpr rfl
    set length := leValue ((payload.bytes.drop offset).take 4) with hlength
    rw [if_neg hlong, if_neg hlong, Invocation.store, dif_pos (by omega), ok_bind,
      addU32_eq (by omega), ok_bind, ok_bind, drop_drop]
    have hrest := ih (index + 1) (offset + 4 + length) ⟨invocation.name,
      invocation.arguments ++ [payload.slice (offset + 4) length], by simp; omega⟩
      (by omega) (by simp; omega)
    refine hrest.mono fun round hround => ?_
    cases htaken : takeArguments () () count (payload.bytes.drop (offset + 4 + length)) with
    | error e =>
      rw [htaken] at hround
      exact hround
    | ok taken =>
      obtain ⟨arguments, rest⟩ := taken
      rw [htaken] at hround
      obtain ⟨invocation', rfl, hle, hcall⟩ := hround
      refine ⟨invocation', rfl, hle, ?_⟩
      rw [hcall]
      simp [Invocation.call, Buffer.slice]

theorem parseRest_returns (payload name : Buffer) {offset : ℕ} (hoffset : offset ≤ payload.length) :
    Returns (parseRest payload name offset) fun result =>
      result.map Invocation.call = ((splitArguments parseErrors 3 (payload.bytes.drop offset)).map
        fun arguments => (name.bytes, arguments)).toOption := by
  have hword := payload.length_lt
  have hlen : payload.length = payload.bytes.length := rfl
  unfold parseRest splitArguments
  rw [subU32_eq hoffset, ok_bind, takeBytes, length_drop, ← hlen]
  by_cases hcount : payload.length - offset < 2
  · rw [if_pos hcount, if_pos hcount]
    exact returns_ok.mpr rfl
  have hpoints := payload.points.drop offset
  rw [if_neg hcount, if_neg hcount, readU16Le_eq hpoints (by rw [length_drop, ← hlen]; omega),
    ok_bind, ok_bind, addU32_eq (by omega), ok_bind, drop_drop]
  simp only
  set argumentCount := leValue ((payload.bytes.drop offset).take 2) with hargumentCount
  by_cases hmany : argumentCount > 3
  · rw [if_pos hmany, failIf, if_pos hmany]
    exact returns_ok.mpr rfl
  rw [if_neg hmany, failIf, if_neg hmany, ok_bind]
  refine (parseArguments_returns payload argumentCount 0 (offset + 2) ⟨name, [], by decide⟩
    (by omega) (by simpa using hmany)).bind fun round hround => ?_
  have herrors : takeArguments parseErrors.argumentLength parseErrors.argument argumentCount
      (payload.bytes.drop (offset + 2)) =
        takeArguments () () argumentCount (payload.bytes.drop (offset + 2)) := rfl
  rw [herrors]
  rcases htaken : takeArguments () () argumentCount (payload.bytes.drop (offset + 2)) with e | taken
  · rw [htaken] at hround
    subst hround
    exact returns_ok.mpr rfl
  obtain ⟨arguments, rest⟩ := taken
  rw [htaken] at hround
  obtain ⟨invocation, rfl, hle, hcall⟩ := hround
  simp only [ok_bind]
  -- the offset is at the end exactly when nothing is left
  by_cases hrest : rest = []
  · rw [hrest, failIf, if_neg (not_not.mpr rfl), length_nil, Nat.sub_zero, if_pos rfl]
    exact returns_ok.mpr (congrArg some hcall)
  have hpos := length_pos_iff.mpr hrest
  rw [failIf, if_pos hrest, if_neg (by omega)]
  exact returns_ok.mpr rfl

/-- **The parser meets no fault on any payload, and finds the call that the payload holds.** -/
theorem parseInvocation_returns (payload : Buffer) :
    Returns (parseInvocation payload) fun result =>
      result.map Invocation.call = (splitCall parseErrors 255 3 payload.bytes).toOption := by
  have hword := payload.length_lt
  have hlen : payload.length = payload.bytes.length := rfl
  unfold parseInvocation splitCall
  rw [takeBytes, ← hlen]
  by_cases hshort : payload.length < 2
  · rw [if_pos hshort, if_pos hshort]
    exact returns_ok.mpr rfl
  rw [if_neg hshort, if_neg hshort, readU16Le_eq payload.points (by omega), ok_bind]
  simp only [ok_bind]
  set nameLength := leValue (payload.bytes.take 2) with hnameLength
  rw [subU32_eq (by omega), ok_bind]
  -- the three parts of the check of the name's length are three checks of the decoder
  by_cases hzero : nameLength = 0
  · rw [if_pos (.inl hzero), failIf, if_pos hzero]
    exact returns_ok.mpr rfl
  by_cases hmax : nameLength > 255
  · rw [if_pos (.inr (.inl hmax)), failIf, if_neg hzero, failIf, if_pos hmax]
    exact returns_ok.mpr rfl
  have hdrop : (payload.bytes.drop 2).length = payload.length - 2 := by simp [hlen]
  rw [failIf, if_neg hzero, failIf, if_neg hmax, ok_bind, ok_bind, takeBytes, hdrop]
  by_cases hlong : nameLength > payload.length - 2
  · rw [if_pos (.inr (.inr hlong)), if_pos hlong]
    exact returns_ok.mpr rfl
  rw [if_neg (by omega), if_neg hlong, validUtf8_buffer, ok_bind, ok_bind]
  have hname : (payload.slice 2 nameLength).bytes = (payload.bytes.drop 2).take nameLength := rfl
  rw [hname]
  cases hutf8 : utf8Valid ((payload.bytes.drop 2).take nameLength) with
  | false => exact returns_ok.mpr rfl
  | true =>
    simp only [Bool.not_true, Bool.false_eq_true, if_false]
    rw [failIf, if_neg not_false, ok_bind, addU32_eq (by omega), ok_bind, drop_drop]
    refine (parseRest_returns payload _ (by omega)).mono fun result hresult => ?_
    rw [hresult, hname]
    rfl

theorem parseInvocation_eq_some {payload invocation}
    (h : parseInvocation payload = .ok (some invocation)) :
    utf8Valid invocation.name.bytes = true ∧ invocation.name.bytes ≠ [] ∧
      invocation.name.bytes.length ≤ 255 ∧
      payload.bytes = callBytes invocation.name.bytes (invocation.arguments.map Buffer.bytes) := by
  have hcall := (parseInvocation_returns payload).of_eq h
  have hsplit : splitCall parseErrors 255 3 payload.bytes = .ok invocation.call := by
    cases hsplit : splitCall parseErrors 255 3 payload.bytes with
    | error e => rw [hsplit] at hcall; cases hcall
    | ok call => rw [hsplit] at hcall; exact congrArg Except.ok (Option.some.inj hcall).symm
  obtain ⟨hutf8, hne, hle, -, hpayload⟩ :=
    (splitCall_eq_ok (by decide) (by decide) payload.length_lt).mp hsplit
  exact ⟨hutf8, hne, hle, hpayload⟩

theorem parseInvocation_callBytes {payload : Buffer} {name : Bytes} {arguments : List Bytes}
    (hutf8 : utf8Valid name = true) (hne : name ≠ []) (hle : name.length ≤ 255)
    (hmax : arguments.length ≤ 3) (hpayload : payload.bytes = callBytes name arguments) :
    ∃ invocation, parseInvocation payload = .ok (some invocation) ∧
      invocation.call = (name, arguments) := by
  have hsplit : splitCall parseErrors 255 3 payload.bytes = .ok (name, arguments) :=
    (splitCall_eq_ok (by decide) (by decide) payload.length_lt).mpr
      ⟨hutf8, hne, hle, hmax, hpayload⟩
  obtain ⟨result, hresult, hcall⟩ := parseInvocation_returns payload
  rw [hsplit] at hcall
  obtain ⟨invocation, rfl, hinvocation⟩ := Option.map_eq_some_iff.mp hcall
  exact ⟨invocation, hresult, hinvocation⟩

/-- **The parser and the encoder agree.** On any payload the parser meets no fault: it reads nothing
outside of it. A payload that the harness encodes is taken apart into the name and the arguments it
was made from, and a payload that is accepted is the encoding of what was found in it. -/
theorem parseInvocation_iff_encoded (payload : Buffer) :
    ∃ result, parseInvocation payload = .ok result ∧
      (∀ name arguments, Guest.encodeInvokeRequest name arguments = .ok payload.bytes →
        arguments.length ≤ 3 →
        payload.bytes.length ≤ Guest.v1GuestInvocationPayloadCapacity →
        ∃ invocation, result = some invocation ∧ invocation.name.bytes = name ∧
          invocation.arguments.map Buffer.bytes = arguments) ∧
      ∀ invocation, result = some invocation →
        utf8Valid invocation.name.bytes = true ∧ invocation.arguments.length ≤ 3 ∧
        payload.bytes =
          callBytes invocation.name.bytes (invocation.arguments.map Buffer.bytes) ∧
        (payload.bytes.length ≤ Guest.maxPayloadSize →
          Guest.encodeInvokeRequest invocation.name.bytes (invocation.arguments.map Buffer.bytes) =
            .ok payload.bytes) := by
  obtain ⟨result, hresult, -⟩ := parseInvocation_returns payload
  refine ⟨result, hresult, ?_, ?_⟩
  · intro name arguments hencode hmax _
    obtain ⟨hutf8, hne, hle, -, -, hpayload⟩ := Guest.encodeInvokeRequest_eq_ok.mp hencode
    obtain ⟨invocation, hparsed, hcall⟩ := parseInvocation_callBytes hutf8 hne hle hmax hpayload
    obtain rfl : some invocation = result := Except.ok.inj (hparsed.symm.trans hresult)
    exact ⟨invocation, rfl, congrArg Prod.fst hcall, congrArg Prod.snd hcall⟩
  · rintro invocation rfl
    obtain ⟨hutf8, hne, hle, hpayload⟩ := parseInvocation_eq_some hresult
    have hcount : (invocation.arguments.map Buffer.bytes).length ≤ Guest.maxArguments := by
      rw [length_map]
      exact invocation.count_le.trans (by decide)
    exact ⟨hutf8, invocation.count_le, hpayload, fun hsize =>
      Guest.encodeInvokeRequest_eq_ok.mpr ⟨hutf8, hne, hle, hcount, hsize, hpayload⟩⟩

/-- The arguments of a call of the read tool. -/
def sampleArguments : List Bytes := [ascii "seed/a", ascii "0", ascii "4"]

/-- The call goes through both. -/
theorem read_call_parsed :
    ∃ payload : Buffer,
      Guest.encodeInvokeRequest (ascii "read") sampleArguments = .ok payload.bytes ∧
      ∃ invocation, parseInvocation payload = .ok (some invocation) ∧
        invocation.name.bytes = ascii "read" ∧
        invocation.arguments.map Buffer.bytes = sampleArguments := by
  have hencode : Guest.encodeInvokeRequest (ascii "read") sampleArguments =
      .ok (callBytes (ascii "read") sampleArguments) := by decide +kernel
  refine ⟨⟨callBytes (ascii "read") sampleArguments, by decide⟩, hencode, ?_⟩
  obtain ⟨result, hresult, haccepted, -⟩ := parseInvocation_iff_encoded
    ⟨callBytes (ascii "read") sampleArguments, by decide⟩
  obtain ⟨invocation, rfl, hname, harguments⟩ :=
    haccepted (ascii "read") _ hencode (by decide) (by decide)
  exact ⟨invocation, hresult, hname, harguments⟩

end Carcer.Seed
