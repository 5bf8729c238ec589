import Carcer.Build.Selection
import Carcer.Guest.Framing
import Carcer.Guest.SourceCapture
import Carcer.Seed.HostRequests

/-!
# The captured snapshot is the built one

The harness captures the source of a guest through the guest's own list and read tools; the guest
builds from the snapshot that `source_snapshot_write` sends. The two select and encode the files
of a store by rules written twice, in two languages.

## Main definitions

* `seedInvoke`: a call of the list or read tool of a store, from the arguments to the result that
  the harness decodes from the reply

## Main results

* `serves_seedInvoke`: the tools of a store serve its files
* `capture_eq_built`: a capture that succeeds returns the bytes that a build sends, and a file that
  a build skips or a listing cannot represent makes it fail
-/

namespace Carcer.Build

open Carcer.Machine Carcer.Wire Carcer.Guest Carcer.Seed List

/-- What can go wrong in a tool call. -/
inductive CallError
  /-- The guest met a fault. -/
  | fault (fault : Fault)
  | framing (error : FramingError)
  /-- "response request ID %d does not match %d" -/
  | requestID (response request : UInt32)
  /-- "response message type 0x%04x does not match 0x%04x" -/
  | messageType (response expected : UInt16)
  /-- "invoke response is missing its status" -/
  | missingStatus
  deriving DecidableEq

def toolName : CaptureTool → Bytes
  | .list => ascii "list"
  | .read => ascii "read"

/-- The invocation that `parse_invocation` finds in a request, which it refuses when there are more
arguments than the array has cells. -/
def invocation (tool : CaptureTool) (arguments : List Bytes) : Option Invocation :=
  if h : arguments.length ≤ 3 ∧ ∀ argument ∈ arguments, argument.length < 2 ^ 32 then
    some ⟨⟨toolName tool, by cases tool <;> decide⟩,
      arguments.pmap Buffer.mk h.2, by simpa using h.1⟩
  else none

/-- `tools_handle_invocation`, for the two tools. -/
def toolsHandleInvocation (requestID : ℕ) (tool : CaptureTool) (arguments : List Bytes) (s : Store)
    (out : Bytes) : Checked Bytes :=
  match invocation tool arguments with
  | none => toolsSendFailure requestID out
  | some call =>
    match tool with
    | .list => invokeList requestID call s out
    | .read => invokeRead requestID call s out

/-- `ToolClient.exchange` and `DecodeToolResult` on the reply. -/
def decodeReply (requestID : UInt32) (reply : Bytes) : Except CallError ToolResult := do
  let (response, _) ← (readFrame reply).mapError .framing
  failIf (response.requestID ≠ requestID) (.requestID response.requestID requestID)
  failIf (response.messageType ≠ 0x8002) (.messageType response.messageType 0x8002)
  decodeToolResult .missingStatus response.payload

/-- A tool call on a store that does not change, under the given request IDs. -/
def seedInvoke (s : Store) (requestIDs : CaptureTool → List Bytes → UInt32) (tool : CaptureTool)
    (arguments : List Bytes) : Except CallError ToolResult := do
  let requestID := requestIDs tool arguments
  let reply ← (toolsHandleInvocation requestID.toNat tool arguments s []).mapError .fault
  decodeReply requestID reply

/-! ### The replies -/

/-- The harness decodes the status and the output from a reply. -/
theorem decodeReply_toolReply (requestID : UInt32) {status : ℕ} (hstatus : status < 256 ^ 4)
    {output : Bytes} (hlength : 4 + output.length ≤ maxPayloadSize) :
    decodeReply requestID (toolReply requestID.toNat status output) = .ok ⟨status, output⟩ := by
  have hencodable : (⟨0x8002, requestID, leBytes 4 status ++ output⟩ : Frame).Encodable := by
    simpa [Frame.Encodable] using hlength
  simp only [decodeReply, decodeToolResult, bind_eq_ok, mapError_eq_ok, Prod.exists,
    failIf_eq_ok, exists_const, readFrame_eq_ok, takeBytes_eq_ok, pure, Except.pure,
    Except.ok.injEq]
  refine ⟨_, [], ⟨hencodable, by rw [toolReply_eq_bytes, append_nil, replyFrame]⟩, by simp, by simp,
    leBytes 4 status, output, ⟨length_leBytes _ _, rfl⟩, ?_⟩
  rw [leValue_leBytes hstatus]

variable {arguments : List Bytes} {tool : CaptureTool}

/-- A reply that fits a frame is decoded to its status and its output. -/
theorem seedInvoke_eq {s} {requestIDs : CaptureTool → List Bytes → UInt32} {status : ℕ}
    {output : Bytes}
    (hreply : toolsHandleInvocation (requestIDs tool arguments).toNat tool arguments s [] =
      .ok (toolReply (requestIDs tool arguments).toNat status output)) (hstatus : status < 256 ^ 4)
    (hlength : 4 + output.length ≤ maxPayloadSize) :
    seedInvoke s requestIDs tool arguments = .ok ⟨status, output⟩ := by
  simp only [seedInvoke, hreply]
  exact decodeReply_toolReply _ hstatus hlength

theorem seedInvoke_failure {s} {requestIDs : CaptureTool → List Bytes → UInt32}
    (hreply : toolsHandleInvocation (requestIDs tool arguments).toNat tool arguments s [] =
      .ok (toolReply (requestIDs tool arguments).toNat toolFailure [])) :
    seedInvoke s requestIDs tool arguments = .ok ⟨toolFailure, []⟩ :=
  seedInvoke_eq hreply (by decide) (by decide)

theorem map_bytes_of_invocation {call}
    (h : invocation tool arguments = some call) : call.arguments.map Buffer.bytes = arguments := by
  unfold invocation at h
  split_ifs at h
  cases h
  rw [map_pmap]
  simp

section Store

variable {s : Store} (hs : s.WellFormed) (requestIDs : CaptureTool → List Bytes → UInt32)
include hs

/-- A list call returns the listing of the source directory, or fails. -/
theorem seedInvoke_list :
    seedInvoke s requestIDs .list [ascii "seed/"] = .ok ⟨toolFailure, []⟩ ∨
    (∀ entry ∈ s.entries, ascii "seed/" <+: entry.1 → 0x0d ∉ entry.1 ∧ 0x0a ∉ entry.1) ∧
      seedInvoke s requestIDs .list [ascii "seed/"] =
        .ok ⟨toolSuccess, listing (ascii "seed/") s.entries⟩ := by
  rcases hcall : invocation .list [ascii "seed/"] with _ | call
  · refine .inl (seedInvoke_failure ?_)
    rw [toolsHandleInvocation, hcall]
    exact toolsSendFailure_eq _ []
  have harguments := map_bytes_of_invocation hcall
  have hhandle : ∀ requestID, toolsHandleInvocation requestID .list [ascii "seed/"] s [] =
      invokeList requestID call s [] := fun requestID => by
    rw [toolsHandleInvocation, hcall]
  obtain ⟨status, output, ⟨rfl, rfl⟩ | ⟨leading, hleading, hlines, rfl, rfl⟩, hreply⟩ :=
    invokeList_replies hs (requestIDs .list [ascii "seed/"]).toNat call
  · exact .inl (seedInvoke_failure (by rw [hhandle, hreply, nil_append]))
  obtain rfl : leading = ascii "seed/" := by
    rcases hleading with hone | ⟨hnone, -⟩
    · simpa [harguments, eq_comm] using hone
    · simp [hnone] at harguments
  have hlength := length_listing_take_le hs (ascii "seed/") le_rfl
  refine .inr ⟨hlines, seedInvoke_eq (by rw [hhandle, hreply, nil_append]) (by decide) ?_⟩
  exact (Nat.add_le_add_left hlength 4).trans (by decide)

/-- A read call from the start returns the front of the file, or fails. -/
theorem seedInvoke_read (path : Bytes) {requested : ℤ} (hpos : 0 < requested)
    (hle : requested ≤ 1048577) :
    seedInvoke s requestIDs .read [path, ascii "0", itoa requested] = .ok ⟨toolFailure, []⟩ ∨
    ∃ content, (path, content) ∈ s.entries ∧
      seedInvoke s requestIDs .read [path, ascii "0", itoa requested] =
        .ok ⟨toolSuccess, content.take requested.toNat⟩ := by
  rcases hcall : invocation .read [path, ascii "0", itoa requested] with _ | call
  · refine .inl (seedInvoke_failure ?_)
    rw [toolsHandleInvocation, hcall]
    exact toolsSendFailure_eq _ []
  have harguments := map_bytes_of_invocation hcall
  have hhandle : ∀ requestID, toolsHandleInvocation requestID .read
      [path, ascii "0", itoa requested] s [] = invokeRead requestID call s [] :=
    fun requestID => by rw [toolsHandleInvocation, hcall]
  obtain ⟨status, output, ⟨rfl, rfl⟩ | ⟨pathArgument, offsetArgument, lengthArgument, offset,
    length, content, hthree, hoffset, hlength, hmem, -, rfl, rfl⟩, hreply⟩ :=
    invokeRead_replies hs (requestIDs .read [path, ascii "0", itoa requested]).toNat call
  · exact .inl (seedInvoke_failure (by rw [hhandle, hreply, nil_append]))
  rw [hthree] at harguments
  obtain ⟨rfl, hzero, hrequested⟩ : pathArgument.bytes = path ∧
      offsetArgument.bytes = ascii "0" ∧ lengthArgument.bytes = itoa requested := by
    simpa using harguments
  obtain ⟨n, rfl⟩ := Int.eq_ofNat_of_zero_le hpos.le
  have hnat : n ≤ 1048577 := by omega
  rw [parseDecimal_decimal (hzero.trans (show ascii "0" = decimal 0 by decide)) (by decide)]
    at hoffset
  rw [parseDecimal_decimal (show lengthArgument.bytes = decimal n from hrequested) (by omega)]
    at hlength
  obtain rfl : 0 = offset := by simpa using hoffset
  obtain rfl : n = length := by simpa using hlength
  have hcontent := hs.length_content_le hmem
  refine .inr ⟨content, hmem, seedInvoke_eq (by
    rw [hhandle, hreply, nil_append, drop_zero, Int.toNat_natCast]) (by decide) ?_⟩
  have hmax : maxPayloadSize = 16777216 := rfl
  rw [length_take]
  omega

/-- **The tools of a store serve its files.** -/
theorem serves_seedInvoke : Serves (seedInvoke s requestIDs) s.entries where
  list := by
    intro result hresult hstatus
    rcases seedInvoke_list hs requestIDs with hfail | ⟨hlines, hlist⟩
    · rw [hfail] at hresult
      cases hresult
      exact absurd hstatus (by decide)
    rw [hlist] at hresult
    cases hresult
    exact ⟨hlines, rfl⟩
  read := by
    intro path requested result hpos hle hresult hstatus
    rcases seedInvoke_read hs requestIDs path hpos hle with hfail | ⟨content, hmem, hread⟩
    · rw [hfail] at hresult
      cases hresult
      exact absurd hstatus (by decide)
    rw [hread] at hresult
    cases hresult
    exact ⟨content, hmem, rfl⟩

end Store

/-- **The captured snapshot is the built one.** Over a reachable store and under a valid budget, a
capture that succeeds returns the bytes that `source_snapshot_write` sends; a file under the source
directory that a build skips, or whose path a listing cannot represent, makes the capture fail. -/
theorem capture_eq_built {s : Store} (h : s.Reachable) {budget : Budget} (hb : budget.Valid)
    (requestIDs : CaptureTool → List Bytes → UInt32) :
    (∀ snapshot,
      captureCanonicalSourceSnapshotWithBudget (seedInvoke s requestIDs) budget = .ok snapshot →
      ∃ count length, sourceSnapshotMeasure s = .ok (some (count, length)) ∧
        length = snapshot.encoded.length ∧
        ∀ out, sourceSnapshotWrite count s out = .ok (out ++ snapshot.encoded)) ∧
    ∀ i < s.fileCount, sourceDirectory <+: (s.entry i).1 →
      buildPathValid (s.files.get i) = .ok false ∨ listPathValid (s.files.get i) = .ok false →
      ∃ e, captureCanonicalSourceSnapshotWithBudget (seedInvoke s requestIDs) budget =
        .error e := by
  have hs := h.wellFormed
  have hcaptured : ∀ snapshot,
      captureCanonicalSourceSnapshotWithBudget (seedInvoke s requestIDs) budget = .ok snapshot →
      (∀ entry ∈ s.entries, sourceDirectory <+: entry.1 →
        SelectedPath entry.1 ∧ 0x0d ∉ entry.1 ∧ 0x0a ∉ entry.1) ∧
      snapshot.encoded = leBytes 2 s.selected.length ++ s.selected.flatMap entryBytes := by
    intro snapshot hcapture
    obtain ⟨hpaths, hfiles, hencoded⟩ :=
      (serves_seedInvoke hs requestIDs).capture hb (pairwise_fst_entries hs) hcapture
    have hselected : ∀ entry ∈ s.entries, sourceDirectory <+: entry.1 → SelectedPath entry.1 :=
      fun entry hentry hleading => selectedPath_of_buildPath (hpaths entry hentry hleading).1.build
    refine ⟨fun entry hentry hleading =>
      ⟨hselected entry hentry hleading, (hpaths entry hentry hleading).2⟩, ?_⟩
    have hsame : s.selected = s.entries.filter fun entry => ascii "seed/" <+: entry.1 :=
      filter_congr fun entry hentry =>
        decide_eq_decide.mpr ⟨SelectedPath.leading, hselected entry hentry⟩
    rw [hencoded, hfiles, ← hsame]
    exact encodeSnapshotFiles_eq s.selected
  refine ⟨fun snapshot hcapture => ?_, fun i hi hleading hrefused => ?_⟩
  · obtain ⟨-, hencoded⟩ := hcaptured snapshot hcapture
    refine ⟨_, _, hs.sourceSnapshotMeasure_eq, ?_, fun out => ?_⟩
    · rw [hencoded, snapshotLength_eq]
    · rw [hs.sourceSnapshotWrite_eq, hencoded, append_assoc]
  · cases hcapture :
        captureCanonicalSourceSnapshotWithBudget (seedInvoke s requestIDs) budget with
    | error e => exact ⟨e, rfl⟩
    | ok snapshot =>
      have hmem : s.entry i ∈ s.entries := mem_map_of_mem (mem_range.mpr hi)
      obtain ⟨hselected, hlines⟩ := (hcaptured snapshot hcapture).1 _ hmem hleading
      rcases hrefused with hskipped | hunlisted
      · rw [hs.buildPathValid_eq hi, decide_eq_true hselected] at hskipped
        simp at hskipped
      obtain ⟨r, hr, hiff⟩ := listPathValid_returns hs hi
      rw [hunlisted] at hr
      cases hr
      exact absurd (hiff.mpr hlines) Bool.false_ne_true

/-- A file that the capture reads, and one outside the source directory. -/
def capturedTable : List EmbeddedFile :=
  [⟨ascii "seed/a", 6, [8], 1, by decide, by decide, by decide⟩,
    ⟨ascii "xy", 2, [], 0, by decide, by decide, by decide⟩]

def capturedSnapshot : SourceSnapshot :=
  ⟨encodeSnapshotFiles [⟨ascii "seed/a", [8]⟩], [⟨ascii "seed/a", [8]⟩]⟩

theorem one_source_captured : ∃ s : Store, s.Reachable ∧
    ∃ snapshot, captureCanonicalSourceSnapshotWithBudget (seedInvoke s fun _ _ => 1) 0 =
        .ok snapshot ∧
      snapshot.files = [⟨ascii "seed/a", [8]⟩] ∧
      ∃ count length, sourceSnapshotMeasure s = .ok (some (count, length)) ∧
        length = snapshot.encoded.length ∧
        ∀ out, sourceSnapshotWrite count s out = .ok (out ++ snapshot.encoded) := by
  have hrun : (filesInit capturedTable .zeroed).toOption.any (fun r =>
      r.1 && captureCanonicalSourceSnapshotWithBudget (seedInvoke r.2 fun _ _ => 1) 0 =
        .ok capturedSnapshot) = true := by
    decide +kernel
  cases hinit : filesInit capturedTable .zeroed with
  | error e =>
    rw [hinit] at hrun
    cases hrun
  | ok r =>
    obtain ⟨succeeded, s⟩ := r
    rw [hinit] at hrun
    obtain ⟨rfl, hcapture⟩ : succeeded = true ∧
        captureCanonicalSourceSnapshotWithBudget (seedInvoke s fun _ _ => 1) 0 =
          .ok capturedSnapshot := by
      simpa [Except.toOption] using hrun
    have hreachable : s.Reachable := .init hinit
    exact ⟨s, hreachable, _, hcapture, rfl,
      (capture_eq_built hreachable (by decide) fun _ _ => 1).1 _ hcapture⟩

end Carcer.Build
