import Carcer.Disk.Tree
import Carcer.Json.Decode

/-!
# Operator feedback

The reason that an operator gives for an abort is attached to the generation that starts next: it is
stored in a file of its own, `operator-feedback/generation-NNNN.json`, that every later start and
every reopening of the run reads again. The reason is bounded as text, the file as JSON.

## Main definitions

* `OperatorFeedback`, `validateOperatorFeedback`: an attachment
* `encodeOperatorFeedback`, `decodeOperatorFeedback`: its file
* `persistOperatorFeedback`, `loadOperatorFeedbackRecords`: the files of a run
* `attachmentWidth`: the bytes of the file, counted on the attachment

## Main results

* `length_encodeOperatorFeedback`: the file is as long as counted
* `recoverable_iff`: an attachment survives being stored if and only if its file is within the limit
-/

namespace Carcer.Experiment

open Carcer.Wire Carcer.Json Carcer.Disk List Named Option

/-! ### Attachments -/

def maxAbortReasonBytes : ℕ := 8 * 1024

/-- `operatorFeedbackLimit`: the bytes of the file that are read. -/
def operatorFeedbackLimit : ℕ := maxAbortReasonBytes + 1024

structure OperatorFeedback where
  targetGeneration : UInt64
  sourceAbortGeneration : UInt64
  reason : Bytes
  schemaVersion : UInt64
  deriving DecidableEq

/-- The errors of this file of the source. -/
inductive FeedbackError
  /-- "abort reason is not valid UTF-8" -/
  | reasonEncoding
  /-- "abort reason must not be empty" -/
  | reasonEmpty
  /-- "abort reason exceeds the supported maximum of %d bytes" -/
  | reasonTooLong
  /-- "operator feedback attachment is malformed" -/
  | malformed
  /-- "invalid encoding" -/
  | encoding
  /-- What the JSON decoder says. -/
  | json
  /-- "trailing data" -/
  | trailingData
  /-- "operator feedback directory is malformed" -/
  | directoryMalformed
  /-- "operator feedback attachment conflicts with immutable state" -/
  | conflict
  /-- "could not inspect operator feedback attachment" -/
  | inspectAttachment (cause : ReadError)
  /-- "could not inspect operator feedback" -/
  | inspect
  /-- "operator feedback directory contains an unexpected entry: " -/
  | unexpectedEntry (name : Bytes)
  /-- "could not read operator feedback attachment" -/
  | read (cause : ReadError)
  /-- "operator feedback attachment is malformed", with what the decoder says. -/
  | decode (cause : FeedbackError)
  deriving DecidableEq

def validateAbortReason (reason : Bytes) : Except FeedbackError Unit := do
  failIf (utf8Valid reason = false) .reasonEncoding
  failIf (trimSpace reason = []) .reasonEmpty
  failIf (reason.length > maxAbortReasonBytes) .reasonTooLong

def validateOperatorFeedback (feedback : OperatorFeedback) : Except FeedbackError Unit := do
  failIf (feedback.schemaVersion ≠ 1 ∨
    feedback.targetGeneration ≤ feedback.sourceAbortGeneration) .malformed
  validateAbortReason feedback.reason

/-! ### The file of an attachment -/

/-- A number as a value of JSON. -/
def number (n : UInt64) : Value := .number (decimal n.toNat)

/-- The members of the file, in the order of the structure. -/
def OperatorFeedback.json (feedback : OperatorFeedback) : Value :=
  .object [(ascii "target_generation", number feedback.targetGeneration),
    (ascii "source_abort_generation", number feedback.sourceAbortGeneration),
    (ascii "reason", .string feedback.reason),
    (ascii "schema_version", number feedback.schemaVersion)]

/-- `encodeOperatorFeedback`: the encoder leaves what HTML reserves as it is, and ends the line. -/
def encodeOperatorFeedback (feedback : OperatorFeedback) : Except FeedbackError Bytes := do
  validateOperatorFeedback feedback
  return print (escape false) indented 0 feedback.json ++ [0x0a]

/-- The fields that the decoder knows. -/
def operatorFeedbackFields : List (Json.Field OperatorFeedback) :=
  [⟨ascii "target_generation", fun v f =>
      (intoUint64 v f.targetGeneration).map fun n => { f with targetGeneration := n }⟩,
    ⟨ascii "source_abort_generation", fun v f =>
      (intoUint64 v f.sourceAbortGeneration).map fun n => { f with sourceAbortGeneration := n }⟩,
    ⟨ascii "reason", fun v f => (intoString v f.reason).map fun text => { f with reason := text }⟩,
    ⟨ascii "schema_version", fun v f =>
      (intoUint64 v f.schemaVersion).map fun n => { f with schemaVersion := n }⟩]

def decodeOperatorFeedback (encoded : Bytes) : Except FeedbackError OperatorFeedback := do
  failIf (encoded.length > operatorFeedbackLimit ∨ utf8Valid encoded = false) .encoding
  match first encoded with
  | none => .error .json
  | some (value, rest) =>
    match intoStruct true operatorFeedbackFields value ⟨0, 0, [], 0⟩ with
    | none => .error .json
    | some feedback => do
      -- a second `Decode` has to find the end of the input
      failIf (skipBlank rest ≠ []) .trailingData
      validateOperatorFeedback feedback
      return feedback

/-! ### The files of a run -/

def operatorFeedbackDirName : Bytes := ascii "operator-feedback"

def operatorFeedbackFilename (generation : UInt64) : Bytes :=
  ascii "generation-" ++ padded 4 generation.toNat ++ ascii ".json"

def parseOperatorFeedbackFilename (name : Bytes) : Option UInt64 := do
  let digits ← between (ascii "generation-") (ascii ".json") name
  if digits.length < 4 ∨ digits.length > 4 ∧ digits.head? = some 0x30 then none
  else do
    let value ← parseUint digits
    if operatorFeedbackFilename (UInt64.ofNat value) = name then some (UInt64.ofNat value) else none

/-- `persistOperatorFeedback`, every operation on files succeeding: what the run directory holds
afterwards. Where it fails, nothing has been changed. -/
def persistOperatorFeedback (run : Directory) (feedback : OperatorFeedback) :
    Except FeedbackError Directory := do
  validateOperatorFeedback feedback
  let encoded ← encodeOperatorFeedback feedback
  -- `Mkdir` leaves what stands under the name
  let made := if (run.entry operatorFeedbackDirName).isNone then
    run.put operatorFeedbackDirName (.directory []) else run
  match made.entry operatorFeedbackDirName with
  | some (.directory entries) =>
    let name := operatorFeedbackFilename feedback.targetGeneration
    match readRegular (Named.entry entries name) operatorFeedbackLimit with
    | .ok existing => if existing = encoded then .ok made else .error .conflict
    | .error .notExist =>
      .ok (made.put operatorFeedbackDirName (.directory (Named.put name (.file encoded) entries)))
    | .error cause => .error (.inspectAttachment cause)
  | _ => .error .directoryMalformed

/-- The body of the loop of `loadOperatorFeedbackRecords`. -/
def loadOperatorFeedbackRecord (pair : Bytes × Entry) : Except FeedbackError OperatorFeedback :=
  match parseOperatorFeedbackFilename pair.1 with
  | none => .error (.unexpectedEntry pair.1)
  | some generation => do
    failIf (Entry.isSymlink (some pair.2)) (.unexpectedEntry pair.1)
    let encoded ← (readRegular (some pair.2) operatorFeedbackLimit).mapError .read
    let record ← (decodeOperatorFeedback encoded).mapError .decode
    failIf (record.targetGeneration ≠ generation) .malformed
    return record

def loadOperatorFeedbackRecords (run : Directory) :
    Except FeedbackError (List OperatorFeedback) :=
  match run.entry operatorFeedbackDirName with
  | none => .ok []
  | some (.directory entries) => entries.mapM loadOperatorFeedbackRecord
  | some (.symlink target) =>
    -- the directory is read through the link before the link is refused
    match followTarget target with
    | none => .ok []
    | some (.directory _) => .error .directoryMalformed
    | some _ => .error .inspect
  | some _ => .error .inspect

/-! ### What the functions accept -/

theorem validateAbortReason_eq_ok {reason : Bytes} {u : Unit} :
    validateAbortReason reason = .ok u ↔ utf8Valid reason = true ∧ trimSpace reason ≠ [] ∧
      reason.length ≤ maxAbortReasonBytes := by
  simp [validateAbortReason, bind_eq_ok]

variable {feedback : OperatorFeedback} {encoded : Bytes}

theorem validateOperatorFeedback_eq_ok {u : Unit} :
    validateOperatorFeedback feedback = .ok u ↔
      (feedback.schemaVersion = 1 ∧
        feedback.sourceAbortGeneration < feedback.targetGeneration) ∧
      utf8Valid feedback.reason = true ∧ trimSpace feedback.reason ≠ [] ∧
      feedback.reason.length ≤ maxAbortReasonBytes := by
  simp [validateOperatorFeedback, bind_eq_ok, validateAbortReason_eq_ok]

theorem encodeOperatorFeedback_eq_ok :
    encodeOperatorFeedback feedback = .ok encoded ↔ validateOperatorFeedback feedback = .ok () ∧
      print (escape false) indented 0 feedback.json ++ [0x0a] = encoded := by
  constructor
  · intro h
    obtain ⟨⟨⟩, hvalid, h⟩ := bind_eq_ok.mp h
    exact ⟨hvalid, Except.ok.inj h⟩
  · rintro ⟨hvalid, rfl⟩
    exact bind_eq_ok.mpr ⟨(), hvalid, rfl⟩

/-! ### The length of the file -/

/-- The bytes that a character takes in a string of JSON. -/
def characterWidth : Bytes → ℕ
  | [byte] =>
    if byte = 0x22 ∨ byte = 0x5c ∨ byte = 0x08 ∨ byte = 0x0c ∨ byte = 0x0a ∨ byte = 0x0d ∨
      byte = 0x09 then 2
    else if byte < 0x20 then 6 else 1
  | bytes => if rune bytes = 0x2028 ∨ rune bytes = 0x2029 then 6 else bytes.length

/-- The bytes that a text takes in a string of JSON. -/
def textWidth (text : Bytes) : ℕ := ((sequences text).map characterWidth).sum

/-- The bytes of the file of an attachment: 98 that all of them have, the digits of the two
generations, and the reason. -/
def attachmentWidth (feedback : OperatorFeedback) : ℕ :=
  98 + (decimal feedback.targetGeneration.toNat).length +
    (decimal feedback.sourceAbortGeneration.toNat).length + textWidth feedback.reason

theorem length_escapeByte (byte : UInt8) :
    (escapeByte false byte).length = characterWidth [byte] := by
  unfold escapeByte
  split_ifs with hself hb hf hn hr ht hcontrol
  · rcases hself with rfl | rfl
    · rfl
    · rfl
  · rw [hb]; rfl
  · rw [hf]; rfl
  · rw [hn]; rfl
  · rw [hr]; rfl
  · rw [ht]; rfl
  · have hlow : byte < 0x20 := by simpa using hcontrol
    rw [characterWidth, if_neg (by tauto), if_pos hlow]
    rfl
  have hhigh : ¬byte < 0x20 := by simpa using hcontrol
  rw [characterWidth, if_neg (by tauto), if_neg hhigh]
  rfl

theorem length_escapeSequence {part : Bytes} (h : IsSequence part) :
    (escapeSequence false part).length = characterWidth part := by
  unfold escapeSequence
  split
  · rw [if_pos h.lt_of_singleton, length_escapeByte]
  rename_i hlong
  rw [characterWidth.eq_2 _ hlong]
  split_ifs
  · rfl
  · rfl

theorem length_escape {text : Bytes} (h : utf8Valid text = true) :
    (escape false text).length = textWidth text := by
  rw [escape, length_flatMap, textWidth]
  congr 1
  exact map_congr_left fun part hpart => length_escapeSequence (isSequence_of_mem h part hpart)

theorem length_escape_names : (escape false (ascii "target_generation")).length = 17 ∧
    (escape false (ascii "source_abort_generation")).length = 23 ∧
    (escape false (ascii "reason")).length = 6 ∧
    (escape false (ascii "schema_version")).length = 14 := by decide +kernel

/-- **The file is as long as counted.** -/
theorem length_encodeOperatorFeedback (h : encodeOperatorFeedback feedback = .ok encoded) :
    encoded.length = attachmentWidth feedback := by
  obtain ⟨hvalid, rfl⟩ := encodeOperatorFeedback_eq_ok.mp h
  obtain ⟨⟨hversion, -⟩, hreason, -⟩ := validateOperatorFeedback_eq_ok.mp hvalid
  obtain ⟨htarget, hsource, hname, hschema⟩ := length_escape_names
  have hone : (decimal 1).length = 1 := by simp [decimal]
  simp only [OperatorFeedback.json, number, print, printMembers, printString, indented, hversion,
    attachmentWidth, length_escape hreason, length_append, length_cons, length_nil,
    length_tail, length_replicate, isEmpty_cons, Bool.false_eq_true, if_false,
    UInt64.toNat_one, htarget, hsource, hname, hschema, hone]
  omega

/-! ### Reading the file back -/

theorem printable_json (feedback : OperatorFeedback) {P : Bytes → Prop}
    (hreason : P feedback.reason) (hnames : P (ascii "target_generation") ∧
      P (ascii "source_abort_generation") ∧ P (ascii "reason") ∧ P (ascii "schema_version")) :
    feedback.json.Printable P :=
  ⟨hnames.1, isNumber_decimal _, hnames.2.1, isNumber_decimal _, hnames.2.2.1, hreason,
    hnames.2.2.2, isNumber_decimal _, trivial⟩

theorem depth_json (feedback : OperatorFeedback) : feedback.json.depth ≤ maxNestingDepth := by
  simp [OperatorFeedback.json, number, Value.depth, membersDepth, maxNestingDepth]

theorem utf8Valid_names : utf8Valid (ascii "target_generation") = true ∧
    utf8Valid (ascii "source_abort_generation") = true ∧ utf8Valid (ascii "reason") = true ∧
    utf8Valid (ascii "schema_version") = true := by decide +kernel

/-- The decoder stores the members of a file in the structure it was written from. -/
theorem intoStruct_json (feedback : OperatorFeedback) :
    intoStruct true operatorFeedbackFields feedback.json ⟨0, 0, [], 0⟩ = some feedback := by
  have hnodup : (operatorFeedbackFields.map Field.name).Nodup := by decide +kernel
  have hjson : feedback.json = .object ((operatorFeedbackFields.zip
      [number feedback.targetGeneration, number feedback.sourceAbortGeneration,
        .string feedback.reason, number feedback.schemaVersion]).map
      fun part => (part.1.name, part.2)) := rfl
  rw [hjson, intoStruct_object true hnodup fun part hpart => (of_mem_zip hpart).1]
  simp [operatorFeedbackFields, storeAll, number, intoUint64_number, intoString]

/-- **A file within the limit is decoded to the attachment it was written for.** -/
theorem decodeOperatorFeedback_encoded (h : encodeOperatorFeedback feedback = .ok encoded)
    (hlimit : encoded.length ≤ operatorFeedbackLimit) :
    decodeOperatorFeedback encoded = .ok feedback := by
  obtain ⟨hvalid, rfl⟩ := encodeOperatorFeedback_eq_ok.mp h
  obtain ⟨-, hreason, -⟩ := validateOperatorFeedback_eq_ok.mp hvalid
  have hutf8 : feedback.json.Printable fun text => utf8Valid text = true :=
    printable_json feedback hreason utf8Valid_names
  have hprinted : utf8Valid (print (escape false) indented 0 feedback.json) = true :=
    utf8Valid_print _ (hutf8.mono fun text => utf8Valid_escape false) 0
  have hnewline : utf8Valid [0x0a] = true := by decide
  have hstops : Stops [0x0a] := stops_cons (by decide)
  have hfirst : first (print (escape false) indented 0 feedback.json ++ [0x0a]) =
      some (feedback.json, [0x0a]) :=
    first_print (hutf8.mono fun text => quotes_escape false) (depth_json feedback) hstops
  have hblank : skipBlank [0x0a] = [] := rfl
  have hencoding : ¬((print (escape false) indented 0 feedback.json ++ [0x0a]).length >
      operatorFeedbackLimit ∨
        utf8Valid (print (escape false) indented 0 feedback.json ++ [0x0a]) = false) := by
    rw [utf8Valid_append hprinted, hnewline]
    simpa using hlimit
  rw [decodeOperatorFeedback, failIf, if_neg hencoding]
  simp only [hfirst, intoStruct_json, failIf, hblank, hvalid]
  rfl

theorem parseOperatorFeedbackFilename_filename (generation : UInt64) :
    parseOperatorFeedbackFilename (operatorFeedbackFilename generation) = some generation := by
  have hdigits : ¬((padded 4 generation.toNat).length < 4 ∨ (padded 4 generation.toNat).length > 4 ∧
      (padded 4 generation.toNat).head? = some 0x30) := by
    rintro (hshort | ⟨hlong, hzero⟩)
    · have hle := le_length_padded 4 generation.toNat
      omega
    · obtain ⟨rest, hrest⟩ := head?_eq_some_iff.mp hzero
      exact padded_ne_zero_cons hlong rest (by decide) hrest
  rw [parseOperatorFeedbackFilename, operatorFeedbackFilename, between_append]
  simp only [bind_eq_bind, bind_some, if_neg hdigits, parseUint_padded,
    UInt64.ofNat_toNat]
  rw [operatorFeedbackFilename, if_pos rfl]

theorem operatorFeedbackFilename_injective : Function.Injective operatorFeedbackFilename :=
  fun a b h => Option.some.inj
    (by rw [← parseOperatorFeedbackFilename_filename a, h, parseOperatorFeedbackFilename_filename])

/-! ### Loading what was persisted -/

theorem loadOperatorFeedbackRecord_file (h : encodeOperatorFeedback feedback = .ok encoded)
    (hlimit : encoded.length ≤ operatorFeedbackLimit) :
    loadOperatorFeedbackRecord
      (operatorFeedbackFilename feedback.targetGeneration, .file encoded) = .ok feedback := by
  have hread : readRegular (some (.file encoded)) operatorFeedbackLimit = .ok encoded :=
    readRegular_eq_ok.mpr ⟨rfl, hlimit⟩
  simp [loadOperatorFeedbackRecord, parseOperatorFeedbackFilename_filename, hread,
    decodeOperatorFeedback_encoded h hlimit, Entry.isSymlink, Except.mapError, failIf, bind,
    Except.bind, pure, Except.pure]

/-- What is persisted: the attachment has a file of its own, or had it before. -/
theorem persistOperatorFeedback_eq_ok {run run'}
    (h : persistOperatorFeedback run feedback = .ok run') :
    ∃ encoded entries, encodeOperatorFeedback feedback = .ok encoded ∧
      (run.entry operatorFeedbackDirName = some (.directory entries) ∨
        run.entry operatorFeedbackDirName = none ∧ entries = []) ∧
      let name := operatorFeedbackFilename feedback.targetGeneration
      (Named.entry entries name = some (.file encoded) ∧ run' = run ∨
        Named.entry entries name = none ∧ run' = run.put operatorFeedbackDirName
          (.directory (Named.put name (.file encoded) entries))) := by
  obtain ⟨⟨⟩, hvalid, h⟩ := bind_eq_ok.mp h
  obtain ⟨encoded, hencoded, h⟩ := bind_eq_ok.mp h
  refine ⟨encoded, ?_⟩
  rcases hrun : run.entry operatorFeedbackDirName with _ | entry
  · -- the directory is new, and empty
    refine ⟨[], hencoded, .inr ⟨rfl, rfl⟩, .inr ⟨rfl, ?_⟩⟩
    simp only [hrun, isNone_none, if_true, entry_put, put_put] at h
    exact (Except.ok.inj h).symm
  simp only [hrun, isNone_some, Bool.false_eq_true, if_false] at h
  cases entry with
  | directory entries =>
    refine ⟨entries, hencoded, .inl rfl, ?_⟩
    simp only at h
    split at h
    · rename_i existing hread
      split_ifs at h with hequal
      exact .inl ⟨hequal ▸ (readRegular_eq_ok.mp hread).1, (Except.ok.inj h).symm⟩
    · rename_i hread
      exact .inr ⟨readRegular_eq_notExist.mp hread, (Except.ok.inj h).symm⟩
    · cases h
  | _ => cases h

theorem loadOperatorFeedbackRecords_directory {run : Directory} {entries}
    (h : run.entry operatorFeedbackDirName = some (.directory entries)) :
    loadOperatorFeedbackRecords run = entries.mapM loadOperatorFeedbackRecord := by
  rw [loadOperatorFeedbackRecords, h]

/-- **A file within the limit is loaded again**, with the others. -/
theorem loadOperatorFeedbackRecords_persisted {run run' records}
    (hload : loadOperatorFeedbackRecords run = .ok records)
    (hpersist : persistOperatorFeedback run feedback = .ok run')
    (hwidth : attachmentWidth feedback ≤ operatorFeedbackLimit) :
    ∃ records', loadOperatorFeedbackRecords run' = .ok records' ∧
      ∀ record, record ∈ records' ↔ record = feedback ∨ record ∈ records := by
  obtain ⟨encoded, entries, hencoded, hentries, hrun⟩ := persistOperatorFeedback_eq_ok hpersist
  have hlimit : encoded.length ≤ operatorFeedbackLimit :=
    length_encodeOperatorFeedback hencoded ▸ hwidth
  have hfile := loadOperatorFeedbackRecord_file hencoded hlimit
  have hbefore : entries.mapM loadOperatorFeedbackRecord = .ok records := by
    rcases hentries with hsome | ⟨hnone, rfl⟩
    · rw [← loadOperatorFeedbackRecords_directory hsome, hload]
    · rw [loadOperatorFeedbackRecords, hnone] at hload
      exact hload
  rcases hrun with ⟨hstored, rfl⟩ | ⟨hnew, rfl⟩
  · refine ⟨records, hload, fun record => ⟨.inr, ?_⟩⟩
    rintro (rfl | hmem)
    · exact (mem_of_mapM hbefore).mpr ⟨_, mem_of_entry hstored, hfile⟩
    · exact hmem
  have hmem : ∀ {pair}, pair ∈ Named.put (operatorFeedbackFilename feedback.targetGeneration)
      (.file encoded) entries ↔
        pair = (operatorFeedbackFilename feedback.targetGeneration, .file encoded) ∨
          pair ∈ entries := mem_put (entry_eq_none.mp hnew)
  have hall : ∀ pair ∈ Named.put (operatorFeedbackFilename feedback.targetGeneration)
      (.file encoded) entries, ∃ record, loadOperatorFeedbackRecord pair = .ok record := by
    intro pair hpair
    rcases hmem.mp hpair with rfl | hold
    · exact ⟨feedback, hfile⟩
    · exact exists_of_mapM hbefore hold
  obtain ⟨records', hrecords'⟩ := exists_mapM hall
  refine ⟨records', by rw [loadOperatorFeedbackRecords_directory (entry_put _ _ _),
    hrecords'], fun record => ?_⟩
  rw [mem_of_mapM hrecords', mem_of_mapM hbefore]
  simp only [hmem, or_and_right, exists_or, exists_eq_left, hfile, Except.ok.injEq, eq_comm]

/-- **What an attachment is stored for**: its file is within the limit and decoded to it, and
storing it in a run that can be loaded leaves a run that can be loaded, with the attachment. -/
structure Recoverable (feedback : OperatorFeedback) : Prop where
  decoded : ∃ encoded, encodeOperatorFeedback feedback = .ok encoded ∧
    encoded.length ≤ operatorFeedbackLimit ∧ decodeOperatorFeedback encoded = .ok feedback
  loaded : ∀ run records run', loadOperatorFeedbackRecords run = .ok records →
    persistOperatorFeedback run feedback = .ok run' →
      ∃ records', loadOperatorFeedbackRecords run' = .ok records' ∧
        ∀ record, record ∈ records' ↔ record = feedback ∨ record ∈ records

/-- **An attachment survives being stored if and only if its file is within the limit**: what
counts is the reason as JSON, where some characters take two bytes, and some six. -/
theorem recoverable_iff (feedback : OperatorFeedback)
    (hvalid : validateOperatorFeedback feedback = .ok ()) :
    Recoverable feedback ↔ attachmentWidth feedback ≤ operatorFeedbackLimit := by
  constructor
  · rintro ⟨⟨encoded, hencoded, hlimit, -⟩, -⟩
    rw [← length_encodeOperatorFeedback hencoded]
    exact hlimit
  · intro hwidth
    have hencoded := encodeOperatorFeedback_eq_ok.mpr ⟨hvalid, rfl⟩
    have hlimit := (length_encodeOperatorFeedback hencoded).trans_le hwidth
    exact ⟨⟨_, hencoded, hlimit, decodeOperatorFeedback_encoded hencoded hlimit⟩,
      fun run records run' hload hpersist =>
        loadOperatorFeedbackRecords_persisted hload hpersist hwidth⟩

/-- The attachment of 8192 quotes, each of which takes two bytes in the file. -/
def quotesFeedback : OperatorFeedback := ⟨1, 0, List.replicate 8192 0x22, 1⟩

/-- A file over the limit is stored all the same, and from then on the run cannot be loaded. -/
theorem loadOperatorFeedbackRecords_oversized (hvalid : validateOperatorFeedback feedback = .ok ())
    (hwidth : operatorFeedbackLimit < attachmentWidth feedback) :
    ∃ run', persistOperatorFeedback [] feedback = .ok run' ∧
      loadOperatorFeedbackRecords run' = .error (.read .tooLarge) := by
  have hencoded := encodeOperatorFeedback_eq_ok.mpr ⟨hvalid, rfl⟩
  have hlength := length_encodeOperatorFeedback hencoded
  refine ⟨_, by simp only [persistOperatorFeedback, hvalid, hencoded]; rfl, ?_⟩
  have hread : readRegular (some (.file (print (escape false) indented 0 feedback.json ++ [0x0a])))
      operatorFeedbackLimit = .error .tooLarge := by
    rw [readRegular, if_pos (hlength ▸ hwidth)]
  simp [loadOperatorFeedbackRecords, Named.put, Named.entry, loadOperatorFeedbackRecord,
    parseOperatorFeedbackFilename_filename, hread, Entry.isSymlink, Except.mapError, failIf, bind,
    Except.bind]

theorem quotes_not_recoverable : validateOperatorFeedback quotesFeedback = .ok () ∧
    ¬Recoverable quotesFeedback ∧ ∃ run', persistOperatorFeedback [] quotesFeedback = .ok run' ∧
      loadOperatorFeedbackRecords run' = .error (.read .tooLarge) := by
  have hascii : ∀ byte ∈ quotesFeedback.reason, byte < 0x80 := by
    intro byte hbyte
    obtain rfl := (mem_replicate.mp hbyte).2
    decide
  have hsequences : sequences quotesFeedback.reason = List.replicate 8192 [0x22] := by
    rw [sequences_of_ascii hascii, quotesFeedback, map_replicate]
  have hspace : isSpace (rune [0x22]) = false := by decide
  have hvalid : validateOperatorFeedback quotesFeedback = .ok () := by
    refine validateOperatorFeedback_eq_ok.mpr
      ⟨⟨rfl, by decide⟩, utf8Valid_of_ascii hascii, ?_, ?_⟩
    · simp [-List.reduceReplicate, trimSpace, hsequences, hspace]
    · rw [quotesFeedback, length_replicate, maxAbortReasonBytes]
  have hwidth : operatorFeedbackLimit < attachmentWidth quotesFeedback := by
    have hquote : characterWidth [0x22] = 2 := rfl
    rw [attachmentWidth, textWidth, hsequences, map_replicate, sum_replicate, hquote]
    decide +kernel
  refine ⟨hvalid, fun hrecoverable => ?_, loadOperatorFeedbackRecords_oversized hvalid hwidth⟩
  obtain ⟨encoded, hencoded, hlimit, -⟩ := hrecoverable.decoded
  exact absurd hlimit (not_le.mpr (length_encodeOperatorFeedback hencoded ▸ hwidth))

/-- A reason with a quote and a line end, both of them escaped. -/
theorem one_quote_recoverable :
    validateOperatorFeedback ⟨1, 0, [0x22, 0x0a], 1⟩ = .ok () ∧
      Recoverable ⟨1, 0, [0x22, 0x0a], 1⟩ :=
  ⟨by decide +kernel, (recoverable_iff _ (by decide +kernel)).mpr (by decide +kernel)⟩

end Carcer.Experiment
