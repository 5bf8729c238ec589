import Carcer.Seed.SourceSnapshot
import Carcer.Seed.Utf8

/-!
# The list and read tools of the seed

The two tools of `seed/tools.c` that do not change the store. Each writes one reply frame: a
header, a status and the output.

## Main definitions

* `Invocation`: a tool call, as `parse_invocation` leaves it
* `parseDecimal`, `validPath`, `listPathValid`: the checks of the source
* `invokeList`, `invokeRead`: the two tools
* `toolReply`: the bytes of a reply

## Main results

* `parseDecimal_exact`: the accepted texts are the decimals that fit into a word
* `invokeList_replies`: the reply is a failure, or the listing of the paths under a prefix, none of
  which contains a line break
* `invokeRead_replies`: the reply is a failure, or the requested part of the content
-/

namespace Carcer.Seed

open Carcer.Machine Carcer.Wire Carcer.Packed List

/-- `struct invocation`: the array of arguments has `MAX_TOOL_ARGUMENTS` cells. -/
structure Invocation where
  name : Buffer
  arguments : List Buffer
  count_le : arguments.length ≤ 3

def toolSuccess : ℕ := 0

def toolFailure : ℕ := 1

/-! ### The checks -/

/-- `parse_decimal`: the value, or `none` when it fails. -/
def parseDecimal (argument : Buffer) : Checked (Option ℕ) := do
  if argument.length = 0 then return none
  let round ← scanRange 0 argument.length (fun index parsed => do
    let byte ← argument.source index
    if byte < 0x30 ∨ byte > 0x39 then return .stop ()
    let digit := byte.toNat - 0x30
    if parsed > (← subU32 0xffffffff digit) / 10 then return .stop ()
    return .next (← addU32 (← mulU32 parsed 10) digit)) 0
  match round with
  | .stop () => return none
  | .next parsed => return some parsed

def validPath (path : Buffer) : Checked Bool := do
  if path.length = 0 ∨ path.length > fileMaxPathLength then return false
  validUtf8 path.source path.length

def listPathValid (file : File) : Checked Bool :=
  allRange 0 file.pathLength fun index => do
    let byte ← file.pathSource index
    return byte ≠ 0x0d ∧ byte ≠ 0x0a

/-! ### The tools -/

def sendInvokeHeader (requestID status outputLength : ℕ) (out : Bytes) : Checked Bytes := do
  let payloadLength ← addU32 4 outputLength
  return frameWriteU32 status (frameSendHeader invokeToolResponse requestID payloadLength out)

def toolsSendFailure (requestID : ℕ) (out : Bytes) : Checked Bytes :=
  sendInvokeHeader requestID toolFailure 0 out

/-- One round of the first loop of `invoke_list`, which adds up the length of the listing. -/
def listMeasure (leading : Buffer) (s : Store) (index outputLength : ℕ) :
    Checked (Round ℕ Unit) := do
  let file ← s.files.read index
  if !(← filePathHasPrefix file leading.source leading.length) then return .next outputLength
  if !(← listPathValid file) then return .stop ()
  return .next (← addU32 outputLength (← addU32 file.pathLength 1))

/-- One round of the second loop of `invoke_list`, which writes the listing. -/
def listWrite (leading : Buffer) (s : Store) (index : ℕ) (out : Bytes) : Checked Bytes := do
  let file ← s.files.read index
  if !(← filePathHasPrefix file leading.source leading.length) then return out
  let out ← serialWriteBytes file.pathSource file.pathLength out
  return out ++ [0x0a]

/-- The part of `invoke_list` behind its checks. -/
def listPaths (requestID : ℕ) (leading : Buffer) (s : Store) (out : Bytes) : Checked Bytes := do
  match ← scanRange 0 s.fileCount (listMeasure leading s) 0 with
  | .stop () => toolsSendFailure requestID out
  | .next outputLength =>
    let out ← sendInvokeHeader requestID toolSuccess outputLength out
    forRange 0 s.fileCount (listWrite leading s) out

def invokeList (requestID : ℕ) (invocation : Invocation) (s : Store) (out : Bytes) :
    Checked Bytes := do
  match invocation.arguments with
  | [] => listPaths requestID ⟨[], by decide⟩ s out
  | [leading] =>
    if !(← validUtf8 leading.source leading.length) then toolsSendFailure requestID out
    else listPaths requestID leading s out
  | _ => toolsSendFailure requestID out

/-- The arguments that `invoke_read` accepts: the path, the offset and the requested length. -/
def readArguments (invocation : Invocation) : Checked (Option (Buffer × ℕ × ℕ)) := do
  match invocation.arguments with
  | [path, offsetArgument, lengthArgument] =>
    if !(← validPath path) then return none
    match ← parseDecimal offsetArgument with
    | none => return none
    | some offset =>
      match ← parseDecimal lengthArgument with
      | none => return none
      | some requestedLength =>
        if requestedLength > (← subU32 frameMaxPayload 4) then return none
        return some (path, offset, requestedLength)
  | _ => return none

def invokeRead (requestID : ℕ) (invocation : Invocation) (s : Store) (out : Bytes) :
    Checked Bytes := do
  match ← readArguments invocation with
  | none => toolsSendFailure requestID out
  | some (path, offset, requestedLength) =>
    match ← fileFind path.source path.length s with
    | none => toolsSendFailure requestID out
    | some row =>
      let file ← s.files.read row
      let size := fileSize file
      if offset > size then toolsSendFailure requestID out
      else
        let available ← subU32 size offset
        let outputLength := if requestedLength < available then requestedLength else available
        let out ← sendInvokeHeader requestID toolSuccess outputLength out
        serialWriteBytes (fun index => fileContent s file (offset + index)) outputLength out

/-! ### The checks meet no fault -/

theorem validUtf8_buffer (text : Buffer) :
    validUtf8 text.source text.length = .ok (utf8Valid text.bytes) :=
  validUtf8_eq text.points text.length_lt

/-- The paths that the tools accept. -/
def Buffer.isPath (path : Buffer) : Bool :=
  path.length ≠ 0 && path.length ≤ fileMaxPathLength && utf8Valid path.bytes

theorem validPath_eq (path : Buffer) : validPath path = .ok path.isPath := by
  unfold validPath Buffer.isPath
  rw [validUtf8_buffer]
  split_ifs with hlength
  · have hnot : ¬(path.length ≠ 0 ∧ path.length ≤ fileMaxPathLength) := by omega
    rw [← Bool.decide_and, decide_eq_false hnot]
    rfl
  have hlength' : path.length ≠ 0 ∧ path.length ≤ fileMaxPathLength := by omega
  rw [← Bool.decide_and, decide_eq_true hlength']
  rfl

/-- A string of digits whose value fits the word. -/
def IsDecimal (bytes : Bytes) : Prop :=
  bytes ≠ [] ∧ (∀ digit ∈ bytes, 0x30 ≤ digit ∧ digit ≤ 0x39) ∧ decimalValue bytes < 2 ^ 32

theorem parseDecimal_returns (argument : Buffer) :
    Returns (parseDecimal argument) fun parsed => ∀ n,
      parsed = some n ↔ IsDecimal argument.bytes ∧ n = decimalValue argument.bytes := by
  unfold parseDecimal
  split_ifs with hempty
  · refine returns_pure.mpr fun n => ⟨nofun, fun hn => ?_⟩
    exact absurd (eq_nil_of_length_eq_zero hempty) hn.1.1
  refine (scanRange_returns
    (fun i parsed => parsed = decimalValue (argument.bytes.take i) ∧ parsed < 2 ^ 32 ∧
      ∀ digit ∈ argument.bytes.take i, 0x30 ≤ digit ∧ digit ≤ 0x39)
    (fun _ => ¬IsDecimal argument.bytes) (Nat.zero_le _)
    ⟨rfl, Nat.two_pow_pos 32, by simp⟩ fun i parsed _ hi hparsed => ?_).bind fun round hround => ?_
  · have hlt : i < argument.bytes.length := hi
    obtain ⟨hparsed, hword, hdigits⟩ := hparsed
    have hle := decimalValue_take_le argument.bytes (i + 1)
    rw [take_succ_eq_append_getElem hlt, decimalValue_append, ← hparsed] at hle
    rw [argument.points i hlt, ok_bind]
    have hdigit : argument.bytes[i] < 0x30 ∨ argument.bytes[i] > 0x39 ↔
        ¬(0x30 ≤ argument.bytes[i] ∧ argument.bytes[i] ≤ 0x39) := by
      rw [not_and_or, UInt8.not_le, UInt8.not_le]
    split_ifs with hother
    · exact returns_pure.mpr fun h => hdigit.mp hother (h.2.1 _ (getElem_mem hlt))
    rw [hdigit, not_not] at hother
    have hrange : 0x30 ≤ argument.bytes[i].toNat ∧ argument.bytes[i].toNat ≤ 0x39 :=
      ⟨UInt8.le_iff_toNat_le.mp hother.1, UInt8.le_iff_toNat_le.mp hother.2⟩
    simp only
    rw [subU32_eq (by omega), ok_bind]
    split_ifs with hbig
    · -- the next digit would take the value out of the word, and so the whole string
      refine returns_pure.mpr fun h => ?_
      have hsmall := h.2.2
      omega
    rw [mulU32_eq (by omega), ok_bind, addU32_eq (by omega), ok_bind, returns_pure]
    rw [take_succ_eq_append_getElem hlt, decimalValue_append, ← hparsed]
    refine ⟨rfl, by omega, fun digit hmem => ?_⟩
    rcases mem_append.mp hmem with hmem | hmem
    · exact hdigits digit hmem
    · rwa [mem_singleton.mp hmem]
  · cases round with
    | stop _ => exact returns_pure.mpr fun n => ⟨nofun, fun hn => absurd hn.1 hround⟩
    | next parsed =>
      obtain ⟨hvalue, hword, hdigits⟩ := hround
      rw [Buffer.length, take_length] at hvalue hdigits
      have hne : argument.bytes ≠ [] := fun h => hempty (by rw [Buffer.length, h]; rfl)
      refine returns_pure.mpr fun n => ?_
      rw [Option.some.injEq, hvalue, eq_comm]
      exact ⟨fun hn => ⟨⟨hne, hdigits, hvalue ▸ hword⟩, hn⟩, fun hn => hn.2⟩

/-- **`parse_decimal` is exact.** It meets no fault on any argument, and returns a number just if
the argument is a string of digits for that number, which fits the word. -/
theorem parseDecimal_exact (argument : Buffer) :
    (∃ parsed, parseDecimal argument = .ok parsed) ∧ ∀ n, parseDecimal argument = .ok (some n) ↔
      IsDecimal argument.bytes ∧ n = decimalValue argument.bytes := by
  obtain ⟨parsed, hparsed, hspec⟩ := parseDecimal_returns argument
  refine ⟨⟨parsed, hparsed⟩, fun n => ?_⟩
  rw [hparsed, Except.ok.injEq, hspec]

theorem parseDecimal_decimal {argument : Buffer} {n : ℕ} (h : argument.bytes = decimal n)
    (hn : n < 2 ^ 32) : parseDecimal argument = .ok (some n) := by
  obtain ⟨parsed, hparsed, hspec⟩ := parseDecimal_returns argument
  rw [h, IsDecimal, decimalValue_decimal] at hspec
  rw [hparsed, (hspec n).mpr ⟨⟨decimal_ne_nil n, fun _ => digit_of_mem_decimal, hn⟩, rfl⟩]

/-! ### The replies -/

/-- The bytes of a reply to a tool call. -/
def toolReply (requestID status : ℕ) (output : Bytes) : Bytes :=
  frameSendHeader invokeToolResponse requestID (4 + output.length) [] ++ leBytes 4 status ++ output

theorem sendInvokeHeader_eq (requestID status : ℕ) {outputLength : ℕ} {output : Bytes}
    (h : outputLength = output.length) (hword : 4 + output.length < 2 ^ 32) (out : Bytes) :
    ∃ header, sendInvokeHeader requestID status outputLength out = .ok header ∧
      header ++ output = out ++ toolReply requestID status output := by
  subst h
  refine ⟨_, by rw [sendInvokeHeader, addU32_eq hword]; rfl, ?_⟩
  simp [toolReply, frameWriteU32, frameSendHeader]

theorem sendInvokeHeader_zero (requestID status : ℕ) (out : Bytes) :
    sendInvokeHeader requestID status 0 out = .ok (out ++ toolReply requestID status []) := by
  obtain ⟨header, hheader, heq⟩ := sendInvokeHeader_eq requestID status
    (show 0 = ([] : Bytes).length from rfl) (by decide) out
  rw [hheader, ← heq, append_nil]

theorem toolsSendFailure_eq (requestID : ℕ) (out : Bytes) :
    toolsSendFailure requestID out = .ok (out ++ toolReply requestID toolFailure []) :=
  sendInvokeHeader_zero requestID toolFailure out

/-- The writer puts one reply behind whatever was written before it. -/
def Replies (write : Bytes → Checked Bytes) (requestID : ℕ) (P : ℕ → Bytes → Prop) : Prop :=
  ∃ status output, P status output ∧
    ∀ out, write out = .ok (out ++ toolReply requestID status output)

theorem replies_failure (requestID : ℕ) {P : ℕ → Bytes → Prop} (h : P toolFailure []) :
    Replies (toolsSendFailure requestID) requestID P :=
  ⟨toolFailure, [], h, toolsSendFailure_eq requestID⟩

/-- The rule of sequencing, behind a computation that does not write. -/
theorem Replies.bind {α : Type} {c : Checked α} {Q : α → Prop} {f : α → Bytes → Checked Bytes}
    {requestID : ℕ} {P : ℕ → Bytes → Prop} (hc : Returns c Q)
    (hf : ∀ a, Q a → Replies (f a) requestID P) :
    Replies (fun out => c >>= fun a => f a out) requestID P := by
  obtain ⟨a, rfl, ha⟩ := hc
  exact hf a ha

/-- The lines of the listing of the paths under `leading`. -/
def listing (leading : Bytes) (entries : List (Bytes × Bytes)) : Bytes :=
  (entries.filter fun entry => leading <+: entry.1).flatMap fun entry => entry.1 ++ [0x0a]

theorem listing_append (leading : Bytes) (entries entries' : List (Bytes × Bytes)) :
    listing leading (entries ++ entries') =
      listing leading entries ++ listing leading entries' := by
  simp [listing]

theorem listing_singleton (leading : Bytes) (entry : Bytes × Bytes) :
    listing leading [entry] = if leading <+: entry.1 then entry.1 ++ [0x0a] else [] := by
  by_cases h : leading <+: entry.1 <;> simp [listing, h]

theorem listing_eq_flatMap (leading : Bytes) (entries : List (Bytes × Bytes)) :
    listing leading entries = entries.flatMap fun entry => listing leading [entry] := by
  induction entries with
  | nil => rfl
  | cons entry entries ih =>
    rw [← singleton_append, listing_append, ih, flatMap_append, flatMap_singleton]

theorem length_listing_le (leading : Bytes) {entries}
    (h : ∀ entry ∈ entries, entry.1.length ≤ fileMaxPathLength) :
    (listing leading entries).length ≤ entries.length * (fileMaxPathLength + 1) := by
  induction entries with
  | nil => simp [listing]
  | cons entry entries ih =>
    obtain ⟨hentry, hentries⟩ := forall_mem_cons.mp h
    have hrest := ih hentries
    rw [← singleton_append, listing_append, listing_singleton, length_append,
      length_append, length_singleton, add_mul, one_mul]
    split_ifs
    · simp only [length_append, length_singleton]
      omega
    · simp only [length_nil]
      omega

section Replies

variable {s : Store} (hs : s.WellFormed)
include hs

theorem filePathHasPrefix_eq (leading : Buffer) {i : ℕ} (hi : i < s.fileCount) :
    filePathHasPrefix (s.files.get i) leading.source leading.length =
      .ok (decide (leading.bytes <+: (s.entry i).1)) := by
  have hname : (s.entry i).1 = (s.files.get i).name := rfl
  have hlength : leading.length = leading.bytes.length := rfl
  unfold filePathHasPrefix
  split_ifs with hlong
  · have hnot : ¬leading.bytes <+: (s.entry i).1 := fun h => by
      have := h.length_le
      rw [hname, File.length_name] at this
      omega
    rw [decide_eq_false hnot]
    rfl
  · have htake : ((s.files.get i).name.take leading.length).length = leading.length := by
      simp
      omega
    have heq := bytesEqual_returns ((hs.points_path hi).take leading.length) leading.points
    rw [htake] at heq
    obtain ⟨r, hr, rfl⟩ := heq
    rw [hlength] at hr ⊢
    rw [hr, Except.ok.injEq, decide_eq_decide, hname, prefix_iff_eq_take]
    exact eq_comm

theorem listPathValid_returns {i : ℕ} (hi : i < s.fileCount) :
    Returns (listPathValid (s.files.get i)) fun r =>
      r = true ↔ 0x0d ∉ (s.entry i).1 ∧ 0x0a ∉ (s.entry i).1 := by
  have hpoints := hs.points_path hi
  refine (allRange_returns (fun k => ∀ h : k < (s.entry i).1.length,
    (s.entry i).1[k] ≠ 0x0d ∧ (s.entry i).1[k] ≠ 0x0a) (Nat.zero_le _) fun k _ hk => ?_).mono
    fun r hr => hr.trans ?_
  · have hk' : k < (s.files.get i).name.length := by simpa using hk
    rw [hpoints k hk', ok_bind]
    simp only [returns_pure, decide_eq_true_eq]
    exact ⟨fun h _ => h, fun h => h hk'⟩
  · constructor
    · intro h
      refine ⟨fun hmem => ?_, fun hmem => ?_⟩ <;>
        obtain ⟨k, hk, hbyte⟩ := getElem_of_mem hmem
      · exact (h k (Nat.zero_le _) (by simpa using hk) hk).1 hbyte
      · exact (h k (Nat.zero_le _) (by simpa using hk) hk).2 hbyte
    · rintro ⟨hcr, hlf⟩ k _ _ hk
      exact ⟨fun h => hcr (h ▸ getElem_mem hk), fun h => hlf (h ▸ getElem_mem hk)⟩

theorem length_listing_take_le (leading : Bytes) {i : ℕ} (hi : i ≤ s.fileCount) :
    (listing leading ((List.range i).map s.entry)).length ≤ 128 * 256 := by
  have hcount : s.fileCount ≤ 128 := hs.count_le
  have hpaths : ∀ entry ∈ (List.range i).map s.entry, entry.1.length ≤ fileMaxPathLength := by
    intro entry hentry
    obtain ⟨j, hj, rfl⟩ := mem_map.mp hentry
    rw [mem_range] at hj
    rw [Store.length_entry_path]
    exact hs.pathLength_le (by omega)
  have hlength := length_listing_le leading hpaths
  rw [length_map, length_range] at hlength
  exact hlength.trans (Nat.mul_le_mul (by omega) le_rfl)

theorem listMeasure_returns (leading : Buffer) {i : ℕ} (hi : i < s.fileCount) {outputLength : ℕ}
    (hword : outputLength ≤ 128 * 256) :
    Returns (listMeasure leading s i outputLength) (Round.Ends
      (fun outputLength' =>
        outputLength' = outputLength + (listing leading.bytes [s.entry i]).length ∧
          (leading.bytes <+: (s.entry i).1 → 0x0d ∉ (s.entry i).1 ∧ 0x0a ∉ (s.entry i).1))
      fun _ => True) := by
  have hpath : (s.files.get i).pathLength ≤ 255 := hs.pathLength_le hi
  unfold listMeasure
  rw [hs.read_files hi, ok_bind, filePathHasPrefix_eq hs leading hi, ok_bind, listing_singleton]
  by_cases hleading : leading.bytes <+: (s.entry i).1
  · simp only [hleading, decide_true, Bool.not_true, Bool.false_eq_true, if_false, if_true]
    refine (listPathValid_returns hs hi).bind fun valid hvalid => ?_
    cases valid with
    | false => exact returns_pure.mpr trivial
    | true =>
      simp only [Bool.not_true, Bool.false_eq_true, if_false]
      rw [addU32_eq (by omega), ok_bind, addU32_eq (by omega), ok_bind, returns_pure]
      refine ⟨?_, fun _ => hvalid.mp rfl⟩
      rw [length_append, Store.length_entry_path, length_singleton]
  · simp only [hleading, decide_false, Bool.not_false, if_true, if_false]
    exact returns_pure.mpr ⟨rfl, False.elim⟩

theorem listWrite_eq (leading : Buffer) {i : ℕ} (hi : i < s.fileCount) (out : Bytes) :
    listWrite leading s i out = .ok (out ++ listing leading.bytes [s.entry i]) := by
  unfold listWrite
  rw [hs.read_files hi, ok_bind, filePathHasPrefix_eq hs leading hi, ok_bind, listing_singleton]
  by_cases hleading : leading.bytes <+: (s.entry i).1
  · simp only [hleading, decide_true, Bool.not_true, Bool.false_eq_true, if_false, if_true]
    rw [serialWriteBytes_eq (hs.points_path hi) (File.length_name _).symm, ok_bind,
      ← append_assoc]
    rfl
  · simp only [hleading, decide_false, Bool.not_false, if_true, if_false, append_nil]
    rfl

/-- The listing of the paths under a prefix, unless one of them contains a line break. -/
theorem listPaths_replies (requestID : ℕ) (leading : Buffer) :
    Replies (listPaths requestID leading s) requestID fun status output =>
      (status = toolFailure ∧ output = []) ∨
      (∀ entry ∈ s.entries, leading.bytes <+: entry.1 → 0x0d ∉ entry.1 ∧ 0x0a ∉ entry.1) ∧
        status = toolSuccess ∧ output = listing leading.bytes s.entries := by
  have hbound := length_listing_take_le hs leading.bytes le_rfl
  unfold listPaths
  refine Replies.bind (scanRange_returns (fun i outputLength =>
      outputLength = (listing leading.bytes ((List.range i).map s.entry)).length ∧
        ∀ j < i, leading.bytes <+: (s.entry j).1 → 0x0d ∉ (s.entry j).1 ∧ 0x0a ∉ (s.entry j).1)
    (fun _ => True) (Nat.zero_le _) ⟨rfl, fun j hj => absurd hj (Nat.not_lt_zero _)⟩
    fun i outputLength _ hi hround => ?_) fun round hround => ?_
  · obtain ⟨rfl, hlines⟩ := hround
    refine (listMeasure_returns hs leading hi
      (length_listing_take_le hs leading.bytes hi.le)).mono fun round hround => ?_
    cases round with
    | stop _ => trivial
    | next outputLength =>
      obtain ⟨hlength, hline⟩ := hround
      refine ⟨?_, fun j hj => ?_⟩
      · rw [hlength, range_succ, map_append, map_singleton, listing_append,
          length_append]
      · rcases Nat.lt_succ_iff_lt_or_eq.mp hj with hlt | rfl
        · exact hlines j hlt
        · exact hline
  · cases round with
    | stop _ => exact replies_failure requestID (.inl ⟨rfl, rfl⟩)
    | next outputLength =>
      obtain ⟨hlength, hlines⟩ := hround
      refine ⟨toolSuccess, _, .inr ⟨?_, rfl, rfl⟩, fun out => ?_⟩
      · intro entry hentry
        obtain ⟨j, hj, rfl⟩ := mem_map.mp hentry
        exact hlines j (mem_range.mp hj)
      · obtain ⟨header, hheader, heq⟩ := sendInvokeHeader_eq requestID toolSuccess hlength
          (by rw [← hlength] at hbound ⊢; omega) out
        simp only
        rw [hheader, ok_bind, forRange_append fun i hi out => listWrite_eq hs leading hi out,
          Store.entries, ← heq, listing_eq_flatMap _ (List.map _ _), flatMap_map]

/-- **What the list tool replies**: a failure, or the listing of the paths under its argument, none
of which contains a line break. -/
theorem invokeList_replies (requestID : ℕ) (invocation : Invocation) :
    Replies (invokeList requestID invocation s) requestID fun status output =>
      (status = toolFailure ∧ output = []) ∨
      ∃ leading : Bytes, (invocation.arguments.map Buffer.bytes = [leading] ∨
          invocation.arguments = [] ∧ leading = []) ∧
        (∀ entry ∈ s.entries, leading <+: entry.1 → 0x0d ∉ entry.1 ∧ 0x0a ∉ entry.1) ∧
        status = toolSuccess ∧ output = listing leading s.entries := by
  unfold invokeList
  match invocation.arguments with
  | [] =>
    obtain ⟨status, output, h, hwrite⟩ := listPaths_replies hs requestID ⟨[], by decide⟩
    exact ⟨status, output, h.imp_right fun h => ⟨[], .inr ⟨rfl, rfl⟩, h⟩, hwrite⟩
  | [leading] =>
    simp only [validUtf8_buffer, ok_bind]
    cases utf8Valid leading.bytes with
    | false => exact replies_failure requestID (.inl ⟨rfl, rfl⟩)
    | true =>
      obtain ⟨status, output, h, hwrite⟩ := listPaths_replies hs requestID leading
      exact ⟨status, output, h.imp_right fun h => ⟨leading.bytes, .inl rfl, h⟩, hwrite⟩
  | _ :: _ :: _ => exact replies_failure requestID (.inl ⟨rfl, rfl⟩)

omit hs in
theorem readArguments_returns (invocation : Invocation) :
    Returns (readArguments invocation) fun arguments =>
      ∀ path offset requestedLength, arguments = some (path, offset, requestedLength) →
        ∃ offsetArgument lengthArgument,
          invocation.arguments = [path, offsetArgument, lengthArgument] ∧
          parseDecimal offsetArgument = .ok (some offset) ∧
          parseDecimal lengthArgument = .ok (some requestedLength) ∧
          requestedLength ≤ frameMaxPayload - 4 := by
  unfold readArguments
  split
  case h_2 => exact returns_pure.mpr fun _ _ _ h => by cases h
  case h_1 path offsetArgument lengthArgument harguments =>
    rw [validPath_eq, ok_bind]
    rcases path.isPath with _ | _
    · exact returns_pure.mpr fun _ _ _ h => by cases h
    simp only [Bool.not_true, Bool.false_eq_true, if_false]
    obtain ⟨offset, hoffset, -⟩ := parseDecimal_returns offsetArgument
    obtain ⟨length, hlength, -⟩ := parseDecimal_returns lengthArgument
    rw [hoffset, ok_bind]
    rcases offset with _ | offset
    · exact returns_pure.mpr fun _ _ _ h => by cases h
    simp only
    rw [hlength, ok_bind]
    cases length with
    | none => exact returns_pure.mpr fun _ _ _ h => by cases h
    | some length =>
      simp only
      rw [subU32_eq (by decide), ok_bind]
      split_ifs with hbig
      · exact returns_pure.mpr fun _ _ _ h => by cases h
      refine returns_pure.mpr fun _ _ _ h => ?_
      obtain ⟨rfl, rfl, rfl⟩ : path = _ ∧ offset = _ ∧ length = _ := by
        simpa [Prod.ext_iff] using h
      exact ⟨_, _, harguments, hoffset, hlength, by omega⟩

/-- **What the read tool replies**: a failure, or the requested part of the content of the file that
its first argument names. -/
theorem invokeRead_replies (requestID : ℕ) (invocation : Invocation) :
    Replies (invokeRead requestID invocation s) requestID fun status output =>
      (status = toolFailure ∧ output = []) ∨
      ∃ path offsetArgument lengthArgument offset requestedLength content,
        invocation.arguments = [path, offsetArgument, lengthArgument] ∧
        parseDecimal offsetArgument = .ok (some offset) ∧
        parseDecimal lengthArgument = .ok (some requestedLength) ∧
        (path.bytes, content) ∈ s.entries ∧ offset ≤ content.length ∧
        status = toolSuccess ∧ output = (content.drop offset).take requestedLength := by
  unfold invokeRead
  refine Replies.bind (readArguments_returns invocation) fun arguments harguments => ?_
  match arguments with
  | none => exact replies_failure requestID (.inl ⟨rfl, rfl⟩)
  | some (path, offset, requestedLength) =>
    obtain ⟨offsetArgument, lengthArgument, harguments, hoffset, hlength, hrequested⟩ :=
      harguments path offset requestedLength rfl
    refine Replies.bind (fileFind_returns hs path.points) fun row hrow => ?_
    rcases row with _ | row
    · exact replies_failure requestID (.inl ⟨rfl, rfl⟩)
    obtain ⟨e, he, hkey⟩ := hrow
    obtain ⟨hlt, rfl⟩ := Store.extent_of_getElem? he
    have hentry : s.entry row = (path.bytes, (s.entry row).2) := by
      rw [← hkey]
      rfl
    have hsize := s.length_entry_content row
    have hstop := stop_le_used hs hlt
    have hused := hs.used_le
    have hcap : fileContentCapacity = 65536 := rfl
    simp only [hs.read_files hlt, ok_bind]
    split_ifs with hpast
    · exact replies_failure requestID (.inl ⟨rfl, rfl⟩)
    simp only [subU32_eq (Nat.not_lt.mp hpast), ok_bind]
    set output := ((s.entry row).2.drop offset).take requestedLength with houtput
    have hpoints : Points (fun index => fileContent s (s.files.get row) (offset + index))
        output := by
      refine Points.take (fun k hk => ?_) requestedLength
      rw [getElem_drop]
      exact hs.points_content hlt (offset + k) (by simp at hk; omega)
    have houtputLength : (if requestedLength < fileSize (s.files.get row) - offset
        then requestedLength else fileSize (s.files.get row) - offset) = output.length := by
      rw [houtput, length_take, length_drop, hsize]
      split_ifs <;> omega
    have hword : 4 + output.length < 2 ^ 32 := by
      rw [houtput, length_take, length_drop, hsize, fileSize]
      omega
    have hmem : (path.bytes, (s.entry row).2) ∈ s.entries := by
      rw [← hentry]
      exact mem_map_of_mem (mem_range.mpr hlt)
    refine ⟨toolSuccess, output, .inr ⟨path, offsetArgument, lengthArgument, offset,
      requestedLength, (s.entry row).2, harguments, hoffset, hlength, hmem, by omega, rfl, rfl⟩,
      fun out => ?_⟩
    obtain ⟨header, hheader, heq⟩ :=
      sendInvokeHeader_eq requestID toolSuccess houtputLength hword out
    simp only
    rw [hheader, ok_bind, serialWriteBytes_eq hpoints houtputLength, heq]

end Replies

end Carcer.Seed
