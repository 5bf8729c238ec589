import Carcer.Experiment.RuntimeLease

/-!
# Abort reasons that reach the next generation

Which attachments a run has on disk. The reason of an aborted generation is attached to the next one
when that is started, before it runs; what is attached is decided by the archives alone, so that a
start which is tried again finds the same attachment. Every earlier abort has been attached by then.

## Main definitions

* `attachment`: what is attached for an aborted generation
* `KeepsFeedback`: the directory of the attachments
* `Assigned`: which attachments there are

## Main results

* `attachOperatorFeedback_latest`: what is attached at the gate
* `FeedbackSound.step`: every operation keeps the attachments in order
* `feedback_attached_once`: each reason is attached to the next generation, and to no other
-/

namespace Carcer.Experiment

open Carcer.Wire Carcer.Disk Carcer.Guest Carcer.Provenance List Named

/-! ### The directory -/

/-- The directory holds the files of a list of attachments. -/
def KeepsFeedback (feedback : Directory) (records : List OperatorFeedback) : Prop :=
  ∃ entries, (feedback.entry operatorFeedbackDirName = some (.directory entries) ∨
      feedback.entry operatorFeedbackDirName = none ∧ entries = []) ∧
    Named.Ordered entries ∧
    ∀ pair, pair ∈ entries ↔ ∃ record ∈ records, ∃ encoded,
      encodeOperatorFeedback record = .ok encoded ∧
        pair = (operatorFeedbackFilename record.targetGeneration, .file encoded)

variable {feedback : Directory} {records loaded : List OperatorFeedback} {record : OperatorFeedback}
  {archive : ArchivedGeneration} {reason : Bytes} {archives : List ArchivedGeneration}
  {run run' : Run} {operation : Operation}

theorem keepsFeedback_nil : KeepsFeedback [] [] :=
  ⟨[], .inr ⟨rfl, rfl⟩, List.Pairwise.nil, by simp⟩

theorem load_eq_mapM {entries}
    (h : feedback.entry operatorFeedbackDirName = some (.directory entries) ∨
      feedback.entry operatorFeedbackDirName = none ∧ entries = []) :
    loadOperatorFeedbackRecords feedback = entries.mapM loadOperatorFeedbackRecord := by
  rcases h with hsome | ⟨hnone, rfl⟩
  · exact loadOperatorFeedbackRecords_directory hsome
  · rw [loadOperatorFeedbackRecords, hnone]
    rfl

/-- A file that is loaded is within the limit, and loaded as the attachment it was written for. -/
theorem loadOperatorFeedbackRecord_eq_ok {encoded : Bytes} {other}
    (hencoded : encodeOperatorFeedback record = .ok encoded) (h : loadOperatorFeedbackRecord
      (operatorFeedbackFilename record.targetGeneration, .file encoded) = .ok other) :
    attachmentWidth record ≤ operatorFeedbackLimit ∧ other = record := by
  have hlimit : encoded.length ≤ operatorFeedbackLimit := by
    rw [loadOperatorFeedbackRecord, parseOperatorFeedbackFilename_filename] at h
    obtain ⟨_, -, h⟩ := bind_eq_ok.mp h
    obtain ⟨content, hread, -⟩ := bind_eq_ok.mp h
    obtain ⟨hentry, hlimit⟩ := readRegular_eq_ok.mp (mapError_eq_ok.mp hread)
    cases hentry
    exact hlimit
  rw [loadOperatorFeedbackRecord_file hencoded hlimit] at h
  exact ⟨length_encodeOperatorFeedback hencoded ▸ hlimit, (Except.ok.inj h).symm⟩

/-- **What is loaded are the attachments**, one for each generation. -/
theorem KeepsFeedback.of_load (h : KeepsFeedback feedback records)
    (hvalid : ∀ record ∈ records, validateOperatorFeedback record = .ok ())
    (hload : loadOperatorFeedbackRecords feedback = .ok loaded) :
    (∀ record, record ∈ loaded ↔ record ∈ records) ∧
      (∀ record ∈ records, attachmentWidth record ≤ operatorFeedbackLimit) ∧
      (loaded.map OperatorFeedback.targetGeneration).Nodup := by
  obtain ⟨entries, hentries, hordered, hfiles⟩ := h
  rw [load_eq_mapM hentries] at hload
  have hfile : ∀ record ∈ records, ∃ encoded, encodeOperatorFeedback record = .ok encoded ∧
      (operatorFeedbackFilename record.targetGeneration, .file encoded) ∈ entries := by
    intro record hrecord
    have hencoded := encodeOperatorFeedback_eq_ok.mpr ⟨hvalid record hrecord, rfl⟩
    exact ⟨_, hencoded, (hfiles _).mpr ⟨record, hrecord, _, hencoded, rfl⟩⟩
  refine ⟨fun record => ?_, fun record hrecord => ?_, ?_⟩
  · rw [mem_of_mapM hload]
    constructor
    · rintro ⟨pair, hpair, hrecord⟩
      obtain ⟨written, hwritten, encoded, hencoded, rfl⟩ := (hfiles pair).mp hpair
      rw [(loadOperatorFeedbackRecord_eq_ok hencoded hrecord).2]
      exact hwritten
    · intro hrecord
      obtain ⟨encoded, hencoded, hpair⟩ := hfile record hrecord
      obtain ⟨other, hother⟩ := exists_of_mapM hload hpair
      exact ⟨_, hpair, (loadOperatorFeedbackRecord_eq_ok hencoded hother).2 ▸ hother⟩
  · obtain ⟨encoded, hencoded, hpair⟩ := hfile record hrecord
    obtain ⟨other, hother⟩ := exists_of_mapM hload hpair
    exact (loadOperatorFeedbackRecord_eq_ok hencoded hother).1
  · -- the names of the files are those of the generations
    have hnames : Named.names entries =
        (loaded.map OperatorFeedback.targetGeneration).map operatorFeedbackFilename := by
      rw [Named.names, map_map]
      have hpairs : ∀ pair ∈ entries, ∀ record, loadOperatorFeedbackRecord pair = .ok record →
          pair.1 = operatorFeedbackFilename record.targetGeneration := by
        intro pair hpair record hrecord
        obtain ⟨written, hwritten, encoded, hencoded, rfl⟩ := (hfiles pair).mp hpair
        rw [(loadOperatorFeedbackRecord_eq_ok hencoded hrecord).2]
      clear hfile hfiles hentries hordered
      rw [mapM_eq_ok] at hload
      induction hload with
      | nil => rfl
      | cons hhead _ ih =>
        rw [map_cons, map_cons, hpairs _ mem_cons_self _ hhead,
          ih fun pair hpair => hpairs pair (mem_cons_of_mem _ hpair)]
        rfl
    have hnodup := hordered.nodup
    rw [hnames] at hnodup
    exact hnodup.of_map _

/-- The attachments are loaded when every file is within the limit. -/
theorem KeepsFeedback.exists_load (h : KeepsFeedback feedback records)
    (hwidth : ∀ record ∈ records, attachmentWidth record ≤ operatorFeedbackLimit) :
    ∃ loaded, loadOperatorFeedbackRecords feedback = .ok loaded := by
  obtain ⟨entries, hentries, -, hfiles⟩ := h
  rw [load_eq_mapM hentries]
  refine exists_mapM fun pair hpair => ?_
  obtain ⟨record, hrecord, encoded, hencoded, rfl⟩ := (hfiles pair).mp hpair
  exact ⟨record, loadOperatorFeedbackRecord_file hencoded
    (length_encodeOperatorFeedback hencoded ▸ hwidth record hrecord)⟩

/-- An attachment that is there is not written again. -/
theorem KeepsFeedback.persist_mem (h : KeepsFeedback feedback records) (hrecord : record ∈ records)
    (hvalid : validateOperatorFeedback record = .ok ())
    (hwidth : attachmentWidth record ≤ operatorFeedbackLimit) :
    persistOperatorFeedback feedback record = .ok feedback := by
  obtain ⟨entries, hentries, hordered, hfiles⟩ := h
  have hencoded := encodeOperatorFeedback_eq_ok.mpr ⟨hvalid, rfl⟩
  have hpair := (hfiles _).mpr ⟨record, hrecord, _, hencoded, rfl⟩
  have hentry := entry_of_mem hordered hpair
  have hread := readRegular_eq_ok.mpr ⟨hentry, length_encodeOperatorFeedback hencoded ▸ hwidth⟩
  rcases hentries with hsome | ⟨-, rfl⟩
  · simp only [persistOperatorFeedback, hvalid, hencoded, hsome, Option.isNone_some,
      Bool.false_eq_true, if_false, bind, Except.bind, hread, if_true]
  · cases hpair

theorem KeepsFeedback.persist_new (h : KeepsFeedback feedback records)
    (hvalid : validateOperatorFeedback record = .ok ())
    (hnew : ∀ other ∈ records, other.targetGeneration ≠ record.targetGeneration) :
    ∃ feedback', persistOperatorFeedback feedback record = .ok feedback' ∧
      KeepsFeedback feedback' (record :: records) := by
  obtain ⟨entries, hentries, hordered, hfiles⟩ := h
  obtain ⟨encoded, hencoded⟩ : ∃ encoded, encodeOperatorFeedback record = .ok encoded :=
    ⟨_, encodeOperatorFeedback_eq_ok.mpr ⟨hvalid, rfl⟩⟩
  have hnone : Named.entry entries (operatorFeedbackFilename record.targetGeneration) = none := by
    rw [entry_eq_none]
    intro hmem
    obtain ⟨pair, hpair, hname⟩ := mem_map.mp hmem
    obtain ⟨other, hother, _, -, rfl⟩ := (hfiles pair).mp hpair
    exact hnew other hother (operatorFeedbackFilename_injective hname)
  have hread : readRegular (Named.entry entries
      (operatorFeedbackFilename record.targetGeneration)) operatorFeedbackLimit =
        .error .notExist := readRegular_eq_notExist.mpr hnone
  refine ⟨feedback.put operatorFeedbackDirName (.directory (Named.put
    (operatorFeedbackFilename record.targetGeneration) (.file encoded) entries)), ?_,
    _, .inl (entry_put _ _ _), ordered_put hordered _, fun pair => ?_⟩
  · rcases hentries with hsome | ⟨hmissing, rfl⟩
    · simp only [persistOperatorFeedback, hvalid, hencoded, hsome, Option.isNone_some,
        Bool.false_eq_true, if_false, bind, Except.bind, hread]
    · simp only [persistOperatorFeedback, hvalid, hencoded, hmissing, Option.isNone_none, if_true,
        entry_put, bind, Except.bind, hread, put_put]
  · rw [mem_put (entry_eq_none.mp hnone), hfiles]
    constructor
    · rintro (rfl | ⟨other, hother, hfile⟩)
      · exact ⟨record, mem_cons_self, _, hencoded, rfl⟩
      · exact ⟨other, mem_cons_of_mem _ hother, hfile⟩
    · rintro ⟨other, hother, content, hfile, rfl⟩
      rcases mem_cons.mp hother with rfl | hother
      · obtain rfl := Except.ok.inj (hencoded.symm.trans hfile)
        exact .inl rfl
      · exact .inr ⟨other, hother, content, hfile, rfl⟩

/-! ### Which attachments there are -/

/-- What is attached for an aborted generation. -/
def attachment (archive : ArchivedGeneration) (reason : Bytes) : OperatorFeedback :=
  ⟨archive.generation + 1, archive.generation, reason, 1⟩

theorem Aborted.aborted_eq (h : Aborted archive reason) : archive.aborted = some reason := by
  rw [ArchivedGeneration.aborted, if_pos h.outcome, h.reason_eq]

theorem Finished.aborted_eq (h : Finished archive) : archive.aborted = none := by
  rw [ArchivedGeneration.aborted, if_neg (by rw [h.outcome]; decide)]

theorem aborted_of_eq_some
    (hwritten : Written archive) (h : archive.aborted = some reason) : Aborted archive reason := by
  rcases hwritten with hfinished | ⟨other, haborted⟩
  · rw [hfinished.aborted_eq] at h
    cases h
  · obtain rfl : other = reason := Option.mem_unique haborted.aborted_eq h
    exact haborted

/-- **Which attachments there are**: only those of aborted generations, and those of all but the
last of them. -/
structure Assigned (archives : List ArchivedGeneration) (records : List OperatorFeedback) :
    Prop where
  exact : ∀ record ∈ records, ∃ archive ∈ archives, ∃ reason, Aborted archive reason ∧
    archive.generation ≠ lastGeneration ∧ record = attachment archive reason
  attached : ∀ archive ∈ archives, ∀ reason, Aborted archive reason →
    archive.generation.toNat + 1 < archives.length → attachment archive reason ∈ records

theorem validate_attachment
    (h : Aborted archive reason) (hlast : archive.generation ≠ lastGeneration) :
    validateOperatorFeedback (attachment archive reason) = .ok () := by
  rw [validateOperatorFeedback_eq_ok]
  refine ⟨⟨rfl, ?_⟩, validateAbortReason_eq_ok.mp h.valid⟩
  rw [UInt64.lt_iff_toNat_lt, attachment, toNat_succ hlast]
  exact Nat.lt_succ_self _

theorem Assigned.valid (h : Assigned archives records) :
    ∀ record ∈ records, validateOperatorFeedback record = .ok () := by
  intro record hrecord
  obtain ⟨archive, -, reason, haborted, hlast, rfl⟩ := h.exact record hrecord
  exact validate_attachment haborted hlast

/-- The records of the loop are the ones it has gone through, when each passes the checks. -/
theorem foldlM_checkFeedbackRecord {seen}
    (hvalid : ∀ record ∈ records, validateOperatorFeedback record = .ok () ∧
      abortedReason archives record.sourceAbortGeneration = some record.reason ∧
      archives ≠ [] ∧ record.targetGeneration ≤ maximumTarget archives)
    (hsources : ((seen ++ records).map OperatorFeedback.sourceAbortGeneration).Nodup)
    (htargets : ((seen ++ records).map OperatorFeedback.targetGeneration).Nodup) :
    records.foldlM (checkFeedbackRecord archives) seen = .ok (seen ++ records) := by
  induction records generalizing seen with
  | nil =>
    rw [append_nil]
    rfl
  | cons record records ih =>
    obtain ⟨⟨hrecord, hreason, hne, htarget⟩, hrest⟩ := forall_mem_cons.mp hvalid
    have hdistinct : ∀ key : OperatorFeedback → UInt64,
        ((seen ++ record :: records).map key).Nodup →
          ¬(seen.any fun other => key other = key record) = true := by
      intro key hnodup hany
      obtain ⟨other, hother, heq⟩ := any_eq_true.mp hany
      rw [map_append, nodup_append] at hnodup
      exact hnodup.2.2 (key other) (mem_map_of_mem hother) (key record) (by simp)
        (of_decide_eq_true heq)
    have hstep : checkFeedbackRecord archives seen record = .ok (seen ++ [record]) := by
      refine bind_eq_ok.mpr ⟨(), mapError_eq_ok.mpr hrecord, bind_eq_ok.mpr ⟨(),
        failIf_eq_ok.mpr (not_not.mpr hreason), bind_eq_ok.mpr ⟨(), failIf_eq_ok.mpr ?_,
        bind_eq_ok.mpr ⟨(), failIf_eq_ok.mpr (hdistinct _ hsources), bind_eq_ok.mpr ⟨(),
        failIf_eq_ok.mpr (hdistinct _ htargets), rfl⟩⟩⟩⟩⟩
      rw [not_or, UInt64.not_lt]
      exact ⟨hne, htarget⟩
    rw [foldlM_cons, hstep]
    have hshift : seen ++ record :: records = (seen ++ [record]) ++ records := by simp
    rw [hshift] at hsources htargets ⊢
    exact ih hrest hsources htargets

theorem abortedReason_eq (h : Sound run)
    (harchive : archive ∈ run.disk.archives) (haborted : Aborted archive reason) :
    abortedReason run.disk.archives archive.generation = some reason := by
  have hsome : (run.disk.archives.reverse.find? fun other =>
      other.generation = archive.generation ∧ other.aborted.isSome).isSome := by
    rw [find?_isSome]
    exact ⟨archive, by simpa using harchive, by simp [haborted.aborted_eq]⟩
  obtain ⟨found, hfound⟩ := Option.isSome_iff_exists.mp hsome
  have hmem : found ∈ run.disk.archives := by
    simpa using mem_of_find?_eq_some hfound
  have hgeneration : found.generation = archive.generation := by
    have hkey := find?_some hfound
    simp only [decide_eq_true_eq] at hkey
    exact hkey.1
  obtain rfl := h.eq_of_generation hmem harchive hgeneration
  rw [abortedReason, hfound]
  exact haborted.aborted_eq

theorem maximumTarget_concat (before : List ArchivedGeneration) (latest : ArchivedGeneration) :
    maximumTarget (before ++ [latest]) =
      if latest.generation = lastGeneration then latest.generation else latest.generation + 1 := by
  rw [maximumTarget, getLast?_concat]

/-- **What is on disk passes the check of the records.** -/
theorem validateOperatorFeedbackRecords_eq_ok (h : Sound run)
    (hassigned : Assigned run.disk.archives records)
    (hloaded : ∀ record, record ∈ loaded ↔ record ∈ records)
    (htargets : (loaded.map OperatorFeedback.targetGeneration).Nodup) :
    validateOperatorFeedbackRecords loaded run.disk.archives = .ok () := by
  have hfold := @foldlM_checkFeedbackRecord loaded run.disk.archives [] ?_ ?_ htargets
  · exact bind_eq_ok.mpr ⟨_, hfold, rfl⟩
  · intro record hrecord
    obtain ⟨archive, harchive, reason, haborted, hlast, rfl⟩ :=
      hassigned.exact record ((hloaded record).mp hrecord)
    refine ⟨validate_attachment haborted hlast, abortedReason_eq h harchive haborted,
      ne_nil_of_mem harchive, ?_⟩
    obtain ⟨before, latest, hsplit⟩ : ∃ before latest, run.disk.archives = before ++ [latest] := by
      rcases eq_nil_or_concat run.disk.archives with hnil | ⟨before, latest, hsplit⟩
      · exact absurd hnil (ne_nil_of_mem harchive)
      · exact ⟨before, latest, by rw [hsplit, concat_eq_append]⟩
    have hplace : latest.generation.toNat = before.length := h.number (by simp [hsplit])
    have hlt := h.toNat_lt harchive
    have hlength : run.disk.archives.length = before.length + 1 := by simp [hsplit]
    rw [hsplit, maximumTarget_concat, attachment, UInt64.le_iff_toNat_le, toNat_succ hlast]
    split
    · rename_i hmaximum
      have hne : archive.generation.toNat ≠ latest.generation.toNat := fun heq =>
        hlast ((UInt64.toNat_inj.mp heq).trans hmaximum)
      omega
    rename_i hmaximum
    rw [toNat_succ hmaximum]
    omega
  · -- the source of an attachment is the number before its target
    have hsources : (loaded.map OperatorFeedback.sourceAbortGeneration) =
        (loaded.map OperatorFeedback.targetGeneration).map fun target => target - 1 := by
      rw [map_map]
      refine map_congr_left fun record hrecord => ?_
      obtain ⟨archive, -, reason, -, -, rfl⟩ :=
        hassigned.exact record ((hloaded record).mp hrecord)
      simp [attachment]
    rw [nil_append, hsources]
    refine htargets.map fun a b heq => ?_
    have hsucc := congrArg (fun target => target + 1) heq
    simpa only [UInt64.sub_add_cancel] using hsucc

/-! ### What is attached at the gate -/

section Gate

variable {before : List ArchivedGeneration} {latest : ArchivedGeneration}

theorem loadFeedback_eq_ok (h : Sound run) (hkeeps : KeepsFeedback feedback records)
    (hassigned : Assigned run.disk.archives records)
    (hload : loadOperatorFeedbackRecords feedback = .ok loaded) :
    loadFeedback feedback run.disk.archives = .ok loaded := by
  obtain ⟨hloaded, -, htargets⟩ := hkeeps.of_load hassigned.valid hload
  exact bind_eq_ok.mpr ⟨loaded, mapError_eq_ok.mpr hload, bind_eq_ok.mpr ⟨(),
    validateOperatorFeedbackRecords_eq_ok h hassigned hloaded htargets, rfl⟩⟩

/-- An attachment for the next generation is that of the latest archive. -/
theorem Assigned.eq_latest (hassigned : Assigned run.disk.archives records) (h : Sound run)
    (harchives : run.disk.archives = before ++ [latest])
    (hrecord : record ∈ records) (hkey : record.targetGeneration = latest.generation + 1 ∨
      record.sourceAbortGeneration = latest.generation) :
    ∃ reason, Aborted latest reason ∧ record = attachment latest reason := by
  obtain ⟨archive, harchive, reason, haborted, -, rfl⟩ := hassigned.exact record hrecord
  have hgeneration : archive.generation = latest.generation := by
    rcases hkey with hkey | hkey
    · have hpred := congrArg (fun target => target - 1) hkey
      simpa [attachment] using hpred
    · exact hkey
  obtain rfl := h.eq_of_generation harchive (by simp [harchives]) hgeneration
  exact ⟨reason, haborted, rfl⟩

/-- The last reason that was not attached is that of the latest archive. -/
theorem unattached_eq (h : Sound run) (hassigned : Assigned run.disk.archives records)
    (harchives : run.disk.archives = before ++ [latest])
    (hloaded : ∀ record, record ∈ loaded ↔ record ∈ records)
    (hnone : ∀ record ∈ records, record.targetGeneration ≠ latest.generation + 1) :
    unattached loaded run.disk.archives (latest.generation + 1) =
      latest.aborted.map (attachment latest) := by
  have hreverse : run.disk.archives.reverse = latest :: before.reverse := by simp [harchives]
  have hlatest : (loaded.any fun record =>
      record.sourceAbortGeneration = latest.generation) = false := by
    rw [any_eq_false]
    intro record hrecord hsource
    have hmem := (hloaded record).mp hrecord
    have hsource := of_decide_eq_true hsource
    obtain ⟨reason, -, rfl⟩ := hassigned.eq_latest h harchives hmem (.inr hsource)
    exact hnone _ hmem rfl
  have hlength : run.disk.archives.length = before.length + 1 := by simp [harchives]
  cases haborted : latest.aborted with
  | some reason =>
    have hfound : (run.disk.archives.reverse.find? fun archive => archive.aborted.isSome ∧
        ¬loaded.any fun record => record.sourceAbortGeneration = archive.generation) =
          some latest := by
      rw [hreverse, find?_cons_of_pos]
      simp [haborted, hlatest]
    simp only [unattached, hfound, Option.bind_some, haborted]
    rfl
  | none =>
    -- the earlier reasons were attached when their successors started
    have hfound : (run.disk.archives.reverse.find? fun archive => archive.aborted.isSome ∧
        ¬loaded.any fun record => record.sourceAbortGeneration = archive.generation) = none := by
      rw [find?_eq_none]
      intro archive harchive hcandidate
      rw [decide_eq_true_eq] at hcandidate
      obtain ⟨hsome, hunattached⟩ := hcandidate
      rw [hreverse] at harchive
      rcases mem_cons.mp harchive with rfl | hbefore
      · rw [haborted] at hsome
        cases hsome
      have hmem : archive ∈ run.disk.archives := by
        rw [harchives]
        exact mem_append_left _ (mem_reverse.mp hbefore)
      obtain ⟨i, hi⟩ := mem_iff_getElem?.mp (mem_reverse.mp hbefore)
      have hlt : i < before.length := (List.getElem?_eq_some_iff.mp hi).1
      have hplace : archive.generation.toNat = i :=
        h.number (by rw [harchives, getElem?_append_left hlt, hi])
      obtain ⟨reason, hreason⟩ := Option.isSome_iff_exists.mp hsome
      have hattached := hassigned.attached archive hmem reason
        (aborted_of_eq_some (h.written archive hmem) hreason) (by omega)
      refine hunattached (any_eq_true.mpr ⟨_, (hloaded _).mpr hattached, ?_⟩)
      exact decide_eq_true rfl
    simp only [unattached, hfound, Option.bind_none]
    rfl

/-- **What is attached at the gate**: the reason of the latest archive, whether or not it was
attached before. -/
theorem attachOperatorFeedback_latest (h : Sound run) (hkeeps : KeepsFeedback feedback records)
    (hassigned : Assigned run.disk.archives records)
    (harchives : run.disk.archives = before ++ [latest])
    (hlast : latest.generation ≠ lastGeneration)
    (hload : loadOperatorFeedbackRecords feedback = .ok loaded) :
    ∃ feedback' records', attachOperatorFeedback feedback run.disk.archives
        (latest.generation + 1) = .ok (feedback', latest.aborted.map (attachment latest)) ∧
      KeepsFeedback feedback' records' ∧
      (∀ record, record ∈ records' ↔
        latest.aborted.map (attachment latest) = some record ∨ record ∈ records) ∧
      Assigned run.disk.archives records' ∧
      ((∀ record ∈ latest.aborted.map (attachment latest), record ∈ records) →
        feedback' = feedback) := by
  obtain ⟨hloaded, hwidths, htargets⟩ := hkeeps.of_load hassigned.valid hload
  have hfeedback := loadFeedback_eq_ok h hkeeps hassigned hload
  have hmem : latest ∈ run.disk.archives := by simp [harchives]
  have hassigned' : ∀ {records'}, (∀ record, record ∈ records' ↔
      latest.aborted.map (attachment latest) = some record ∨ record ∈ records) →
        Assigned run.disk.archives records' := by
    intro records' hrecords'
    refine ⟨fun record hrecord => ?_, fun archive harchive reason haborted hlt =>
      (hrecords' _).mpr (.inr (hassigned.attached archive harchive reason haborted hlt))⟩
    rcases (hrecords' record).mp hrecord with hnew | hold
    · obtain ⟨reason, hreason, rfl⟩ := Option.map_eq_some_iff.mp hnew
      exact ⟨latest, hmem, reason, aborted_of_eq_some (h.written latest hmem) hreason, hlast, rfl⟩
    · exact hassigned.exact record hold
  -- what the gate selects, and what is done with it
  have hselected : feedbackForGeneration feedback run.disk.archives (latest.generation + 1) =
      .ok (latest.aborted.map (attachment latest)) := by
    refine bind_eq_ok.mpr ⟨loaded, hfeedback, ?_⟩
    cases hfind : loaded.find? fun record => record.targetGeneration = latest.generation + 1 with
    | some record =>
      have hrecord := (hloaded record).mp (mem_of_find?_eq_some hfind)
      have htarget : record.targetGeneration = latest.generation + 1 := by
        simpa using find?_some hfind
      obtain ⟨reason, haborted, rfl⟩ := hassigned.eq_latest h harchives hrecord (.inl htarget)
      rw [haborted.aborted_eq]
      rfl
    | none =>
      have hnone : ∀ record ∈ records, record.targetGeneration ≠ latest.generation + 1 := by
        intro record hrecord htarget
        have habsent := find?_eq_none.mp hfind record ((hloaded record).mpr hrecord)
        exact habsent (decide_eq_true htarget)
      dsimp only
      rw [unattached_eq h hassigned harchives hloaded hnone]
      rfl
  have hattach : ∀ {feedback'}, (latest.aborted = none → feedback' = feedback) →
      (∀ reason, latest.aborted = some reason →
        persistOperatorFeedback feedback (attachment latest reason) = .ok feedback') →
      attachOperatorFeedback feedback run.disk.archives (latest.generation + 1) =
        .ok (feedback', latest.aborted.map (attachment latest)) := by
    intro feedback' hfinished hpersist
    refine bind_eq_ok.mpr ⟨_, loadHistory_eq_ok h, bind_eq_ok.mpr ⟨_, hselected, ?_⟩⟩
    cases haborted : latest.aborted with
    | none =>
      rw [hfinished haborted]
      rfl
    | some reason =>
      exact bind_eq_ok.mpr ⟨feedback', mapError_eq_ok.mpr (hpersist reason haborted), rfl⟩
  rcases haborted : latest.aborted with _ | reason
  · rw [haborted] at hattach
    exact ⟨feedback, records, hattach (fun _ => rfl) (fun _ h => nomatch h), hkeeps, by simp,
      hassigned, fun _ => rfl⟩
  rw [haborted] at hattach hassigned'
  have hvalid : validateOperatorFeedback (attachment latest reason) = .ok () :=
    validate_attachment (aborted_of_eq_some (h.written latest hmem) haborted) hlast
  by_cases hrecord : attachment latest reason ∈ records
  · -- a start that is tried again
    have hpersist := hkeeps.persist_mem hrecord hvalid (hwidths _ hrecord)
    refine ⟨feedback, records, hattach (fun _ => rfl) ?_, hkeeps, fun record => ?_, hassigned,
      fun _ => rfl⟩
    · rintro _ ⟨⟩
      exact hpersist
    constructor
    · exact .inr
    · rintro (hnew | hold)
      · cases hnew
        exact hrecord
      · exact hold
  · have hnew : ∀ other ∈ records,
        other.targetGeneration ≠ (attachment latest reason).targetGeneration := by
      intro other hother htarget
      obtain ⟨same, hsame, rfl⟩ := hassigned.eq_latest h harchives hother (.inl htarget)
      obtain rfl : same = reason := Option.mem_unique hsame.aborted_eq haborted
      exact hrecord hother
    obtain ⟨feedback', hpersist, hkeeps'⟩ := hkeeps.persist_new hvalid hnew
    have hrecords' : ∀ record, record ∈ attachment latest reason :: records ↔
        (some reason).map (attachment latest) = some record ∨ record ∈ records := by
      intro record
      rw [mem_cons, Option.map_some, Option.some.injEq]
      exact or_congr_left eq_comm
    refine ⟨feedback', _, hattach (fun h => nomatch h) ?_, hkeeps', hrecords',
      hassigned' hrecords', fun hall => absurd (hall _ rfl) hrecord⟩
    rintro _ ⟨⟩
    exact hpersist

end Gate

/-! ### Runs -/

/-- **The attachments of a run**: the directory holds those that are due, and a generation that is
under way has its own. -/
structure FeedbackSound (run : Run) (records : List OperatorFeedback) : Prop where
  keeps : KeepsFeedback run.disk.feedback records
  assigned : Assigned run.disk.archives records
  current : run.process.state = .running ∨ run.process.state = .paused →
    ∀ number, run.process.generationNumber = some number →
      number.toNat = run.disk.archives.length →
        ∀ archive ∈ run.disk.archives, ∀ reason, Aborted archive reason →
          archive.generation.toNat + 1 = run.disk.archives.length →
            attachment archive reason ∈ records

section

variable (h : FeedbackSound run records)
include h

theorem FeedbackSound.of_inactive (hfeedback : run'.disk.feedback = run.disk.feedback)
    (harchives : run'.disk.archives = run.disk.archives)
    (hinactive : run'.process.state = .stopped ∨ run'.process.state = .awaitingNextGeneration) :
    FeedbackSound run' records := by
  refine ⟨hfeedback ▸ h.keeps, harchives ▸ h.assigned, fun hactive => ?_⟩
  rcases hinactive with hstate | hstate
  · rw [hstate] at hactive
    rcases hactive with hactive | hactive <;> cases hactive
  · exact absurd hstate (ne_awaiting hactive)

theorem FeedbackSound.of_active (hfeedback : run'.disk.feedback = run.disk.feedback)
    (harchives : run'.disk.archives = run.disk.archives)
    (hactive : run.process.state = .running ∨ run.process.state = .paused)
    (hnumber : run'.process.generationNumber = run.process.generationNumber) :
    FeedbackSound run' records := by
  refine ⟨hfeedback ▸ h.keeps, harchives ▸ h.assigned, fun _ => ?_⟩
  rw [hnumber, harchives]
  exact h.current hactive

/-- The reason of the latest archive is attached when the next generation starts. -/
theorem FeedbackSound.startedNext (hsound : Sound run)
    {disk : RunDirectory} {process : CodexOSRun} {selection next feedback attached} {image : Bool}
    {capacity} (hawaiting : run.process.state = .awaitingNextGeneration)
    (hselected : Selected run.process selection)
    (hnext : nextGeneration run.disk.archives capacity image selection = .ok next)
    (hfeedback : disk.feedback = run.disk.feedback) (harchives : disk.archives = run.disk.archives)
    (hattach : attachOperatorFeedback disk.feedback disk.archives next.number =
      .ok (feedback, attached)) :
    ∃ records', FeedbackSound ⟨{ disk with feedback := feedback }, process⟩ records' := by
  obtain ⟨before, latest, hsplit, hlatest, -, -⟩ := hsound.gate hawaiting
  obtain ⟨number, hnumber, hlast, hnext⟩ := number_nextGeneration hselected hnext
  obtain rfl : number = latest.generation := Option.mem_unique hnumber hlatest
  rw [hfeedback, harchives, hnext] at hattach
  -- the attachments were loaded before one was chosen
  have hload : ∃ loaded, loadOperatorFeedbackRecords run.disk.feedback = .ok loaded := by
    obtain ⟨archives, -, hchosen⟩ := bind_eq_ok.mp hattach
    obtain ⟨chosen, hchosen, -⟩ := bind_eq_ok.mp hchosen
    obtain ⟨records, hrecords, -⟩ := bind_eq_ok.mp hchosen
    obtain ⟨loaded, hloaded, -⟩ := bind_eq_ok.mp hrecords
    exact ⟨loaded, mapError_eq_ok.mp hloaded⟩
  obtain ⟨loaded, hloaded⟩ := hload
  obtain ⟨feedback', records', hattach', hkeeps', hrecords', hassigned', -⟩ :=
    attachOperatorFeedback_latest hsound h.keeps h.assigned hsplit hlast hloaded
  obtain ⟨rfl, rfl⟩ := Prod.mk.inj (Except.ok.inj (hattach.symm.trans hattach'))
  refine ⟨records', hkeeps', by dsimp only; rw [harchives]; exact hassigned', ?_⟩
  dsimp only
  rw [harchives]
  intro _ _ _ _ archive harchive reason haborted hplace
  have hlatest : latest.generation.toNat = before.length := hsound.number (by simp [hsplit])
  have hlength : run.disk.archives.length = before.length + 1 := by simp [hsplit]
  have hgeneration : archive.generation = latest.generation := UInt64.toNat_inj.mp (by omega)
  obtain rfl := hsound.eq_of_generation harchive (by simp [hsplit]) hgeneration
  rw [hrecords', haborted.aborted_eq]
  exact .inl rfl

/-- When a generation is archived, the reason of the one before it was attached. -/
theorem FeedbackSound.ended (hsound : Sound run) {disk}
    {process : CodexOSRun} (hends : Ends run operation disk archive)
    (hstate : process.state = .awaitingNextGeneration) :
    FeedbackSound ⟨{ disk with archives := disk.archives ++ [archive] }, process⟩ records := by
  obtain ⟨suffix, hrecorded⟩ := hends.recorded
  obtain ⟨harness, rfl⟩ := recordHarnessGenerationStart_archives hrecorded
  have hnumber : archive.generation.toNat = run.disk.archives.length := by
    have hextends := (hends.extends hsound).number
    rw [length_map] at hextends
    exact hextends
  refine ⟨h.keeps, ⟨fun record hrecord => ?_, fun other hother reason haborted hlt => ?_⟩,
    fun hactive => absurd hstate (ne_awaiting hactive)⟩
  · obtain ⟨other, hother, hexact⟩ := h.assigned.exact record hrecord
    exact ⟨other, mem_append_left _ hother, hexact⟩
  · simp only [length_append, length_singleton] at hlt
    rcases mem_append.mp hother with hold | hnew
    · rcases Nat.lt_or_eq_of_le (Nat.lt_succ_iff.mp hlt) with hlt | heq
      · exact h.assigned.attached other hold reason haborted hlt
      · exact h.current hends.active archive.generation hends.number hnumber other hold reason
          haborted heq
    · obtain rfl := mem_singleton.mp hnew
      omega

/-- **Every operation keeps the attachments in order.** -/
theorem FeedbackSound.step (hsound : Sound run)
    (heffect : Effect run operation run') : ∃ records', FeedbackSound run' records' := by
  cases heffect with
  | refused => exact ⟨records, h⟩
  | opened | closed => exact ⟨records, h.of_inactive rfl rfl (.inl rfl)⟩
  | started image hstopped hunnumbered hrecorded =>
    obtain ⟨harness, rfl⟩ := recordHarnessGenerationStart_archives hrecorded
    refine ⟨records, h.keeps, h.assigned, ?_⟩
    -- a run in which generation zero is the next one has no archives
    rintro - _ ⟨⟩ hlength archive harchive
    have hnil : run.disk.archives = [] := length_eq_zero_iff.mp hlength.symm
    have harchive : archive ∈ run.disk.archives := harchive
    rw [hnil] at harchive
    cases harchive
  | atGate => exact ⟨records, h.of_inactive rfl rfl (.inr rfl)⟩
  | selected _ _ _ hselect =>
    exact ⟨records, h.of_inactive rfl rfl (.inr (selected_of_select hselect).2.2.2)⟩
  | dropped hbooting hdisk =>
    have hawaiting := (hsound.booting _ hbooting).1
    rcases hdisk with rfl | ⟨next, -, hrecorded⟩
    · exact ⟨records, h.of_inactive rfl rfl (.inr hawaiting)⟩
    · obtain ⟨harness, rfl⟩ := recordHarnessGenerationStart_archives hrecorded
      exact ⟨records, h.of_inactive rfl rfl (.inr hawaiting)⟩
  | booted image hbooting hnext hrecorded hattach =>
    obtain ⟨hawaiting, -, hselected⟩ := hsound.booting _ hbooting
    obtain ⟨harness, rfl⟩ := recordHarnessGenerationStart_archives hrecorded
    exact h.startedNext hsound hawaiting hselected hnext rfl rfl hattach
  | startedOffline _ hoffline hselect hnext hattach =>
    obtain ⟨hselected, -, -, hawaiting⟩ := selected_of_select hselect
    exact h.startedNext hsound hawaiting hselected hnext rfl rfl hattach
  | unarchived _ hactive _ hrecorded hprocess =>
    obtain ⟨harness, rfl⟩ := recordHarnessGenerationStart_archives hrecorded
    rcases hprocess with rfl | rfl
    · exact ⟨records, h.of_active rfl rfl hactive rfl⟩
    · exact ⟨records, h.of_inactive rfl rfl (.inl rfl)⟩
  | ended _ hends hprocess =>
    rcases hprocess with ⟨-, handoff, snapshot, -, -, rfl⟩ | ⟨-, rfl | rfl⟩
    all_goals exact ⟨records, h.ended hsound hends rfl⟩
  | unreadable _ hends hunread => exact absurd (hends.readable hsound) hunread
  | halted _ hactive => exact ⟨records, h.of_active rfl rfl hactive rfl⟩
  | leased _ hfrozen => exact ⟨records, h.of_inactive rfl rfl (.inr hfrozen.2.1)⟩
  | released =>
    exact ⟨records, h.keeps, h.assigned, h.current⟩
  | resized _ hawaiting => exact ⟨records, h.of_inactive rfl rfl (.inr hawaiting)⟩

end

theorem feedbackSound_newExperiment (identity : Option HarnessIdentity) (capacity : Budget)
    (bootstrap : Option Bytes) : FeedbackSound (newExperiment identity capacity bootstrap) [] := by
  refine ⟨keepsFeedback_nil, ⟨by simp, ?_⟩, ?_⟩
  · intro archive harchive
    cases harchive
  · rintro (hstate | hstate) <;> cases hstate

theorem feedbackSound_performAll (h : FeedbackSound run records) (hsound : Sound run)
    (operations : List Operation) :
    ∃ records', FeedbackSound (performAll run operations) records' := by
  have hboth := @performAll_induction (fun _ _ => True)
    (fun run => Sound run ∧ ∃ records, FeedbackSound run records) run ⟨hsound, records, h⟩
    (fun _ _ ⟨hsound, records, h⟩ _ => ⟨hsound.step (perform_effect _ _),
      h.step hsound (perform_effect _ _)⟩) operations fun _ _ _ _ => trivial
  exact hboth.2

/-- **Each reason reaches the next generation, and no other.** In every run whose attachments can
be read: the check of the records accepts them; there is at most one for each generation and for
each abort; each is the reason of the aborted generation before its target; the reason of every
generation whose successor was started is there; and a start from the gate gets the reason of the
latest generation, the same one however often it is tried. -/
theorem feedback_attached_once (identity : Option HarnessIdentity) (capacity : Budget)
    (bootstrap : Option Bytes) (hcapacity : capacity.Valid) (operations : List Operation)
    (records : List OperatorFeedback)
    (hreadable : loadOperatorFeedbackRecords (performAll
      (newExperiment identity capacity bootstrap) operations).disk.feedback = .ok records) :
    let run := performAll (newExperiment identity capacity bootstrap) operations
    validateOperatorFeedbackRecords records run.disk.archives = .ok () ∧
    (records.map OperatorFeedback.targetGeneration).Nodup ∧
    (records.map OperatorFeedback.sourceAbortGeneration).Nodup ∧
    (∀ record ∈ records, record.targetGeneration = record.sourceAbortGeneration + 1 ∧
      ∃ archive ∈ run.disk.archives, archive.generation = record.sourceAbortGeneration ∧
        archive.aborted = some record.reason) ∧
    (∀ archive ∈ run.disk.archives, ∀ reason, archive.aborted = some reason →
      (archive.generation.toNat + 1 < run.disk.archives.length ∨
        (run.process.state = .running ∨ run.process.state = .paused) ∧
          ∃ number, run.process.generationNumber = some number ∧
            number.toNat = archive.generation.toNat + 1) →
      ⟨archive.generation + 1, archive.generation, reason, 1⟩ ∈ records) ∧
    (run.process.state = .awaitingNextGeneration → ∀ number ≠ lastGeneration,
      run.process.generationNumber = some number →
      ∃ feedback reason, (∃ latest, run.disk.archives.getLast? = some latest ∧
          latest.generation = number ∧ latest.aborted = reason) ∧
        attachOperatorFeedback run.disk.feedback run.disk.archives (number + 1) =
          .ok (feedback, reason.map fun reason => ⟨number + 1, number, reason, 1⟩) ∧
        ∀ again, loadOperatorFeedbackRecords feedback = .ok again →
          attachOperatorFeedback feedback run.disk.archives (number + 1) =
            .ok (feedback, reason.map fun reason => ⟨number + 1, number, reason, 1⟩)) := by
  intro run
  have hsound : Sound run := sound_performAll (sound_newExperiment hcapacity bootstrap) operations
  obtain ⟨kept, hfeedback⟩ : ∃ kept, FeedbackSound run kept := feedbackSound_performAll
    (feedbackSound_newExperiment identity capacity bootstrap)
    (sound_newExperiment hcapacity bootstrap) operations
  have hassigned := hfeedback.assigned
  obtain ⟨hmem, -, htargets⟩ := hfeedback.keeps.of_load hassigned.valid hreadable
  have hrecords : ∀ record ∈ records, record.targetGeneration = record.sourceAbortGeneration + 1 ∧
      ∃ archive ∈ run.disk.archives, archive.generation = record.sourceAbortGeneration ∧
        archive.aborted = some record.reason := by
    intro record hrecord
    obtain ⟨archive, harchive, reason, haborted, -, rfl⟩ :=
      hassigned.exact record ((hmem record).mp hrecord)
    exact ⟨rfl, archive, harchive, rfl, haborted.aborted_eq⟩
  refine ⟨validateOperatorFeedbackRecords_eq_ok hsound hassigned hmem htargets, htargets, ?_,
    hrecords, ?_, ?_⟩
  · refine List.Nodup.of_map (fun source => source + 1) ?_
    rw [map_map]
    convert htargets using 1
    exact map_congr_left fun record hrecord => (hrecords record hrecord).1.symm
  · intro archive harchive reason hreason hstarted
    have haborted := aborted_of_eq_some (hsound.written archive harchive) hreason
    rw [hmem]
    rcases hstarted with hlt | ⟨hactive, number, hnumber, hsucc⟩
    · exact hassigned.attached archive harchive reason haborted hlt
    obtain ⟨other, transition, hother, -, hextends, -⟩ := hsound.underWay hactive
    obtain rfl : number = other := Option.mem_unique hnumber hother
    rcases hextends with hextends | ⟨later, hlater, rfl⟩
    · have hlength : number.toNat = run.disk.archives.length := by
        have hplace := (hextends .completed).number
        rw [length_map] at hplace
        exact hplace
      exact hfeedback.current hactive number hnumber hlength archive harchive reason haborted
        (hsucc.symm.trans hlength)
    · have hlt := hsound.toNat_lt hlater
      exact hassigned.attached archive harchive reason haborted (by omega)
  · intro hawaiting number hlast hnumber
    obtain ⟨before, latest, hsplit, hlatest, -, -⟩ := hsound.gate hawaiting
    obtain rfl : number = latest.generation := Option.mem_unique hnumber hlatest
    obtain ⟨feedback, kept', hattach, hkeeps', hmem', hassigned', -⟩ :=
      attachOperatorFeedback_latest hsound hfeedback.keeps hassigned hsplit hlast hreadable
    refine ⟨feedback, latest.aborted, ⟨latest, by rw [hsplit, getLast?_concat], rfl, rfl⟩,
      hattach, fun again hagain => ?_⟩
    obtain ⟨feedback', -, hattach', -, -, -, hsame⟩ :=
      attachOperatorFeedback_latest hsound hkeeps' hassigned' hsplit hlast hagain
    rw [hsame fun record hrecord => (hmem' record).mpr (.inl hrecord)] at hattach'
    exact hattach'

/-- Generation one is aborted and generation two forked from generation zero; its start is tried,
the run is closed, and the start is tried again. -/
def forkedAfterAbort : List Operation :=
  firstGeneration none ++ [.continueGeneration fortunate, .finishTransition fortunate,
    .abort fortunate (ascii "wrong turn"), .forkFromGeneration fortunate 0,
    .finishTransition fortunate, .reopen (some none), .reopenAtGate fortunate,
    .forkFromGeneration fortunate 0, .finishTransition fortunate]

/-- The attachment of that run. -/
theorem feedback_attached_once_forked :
    loadOperatorFeedbackRecords (performAll (newExperiment none 0 none)
        forkedAfterAbort).disk.feedback = .ok [⟨2, 1, ascii "wrong turn", 1⟩] ∧
      validateOperatorFeedbackRecords [⟨2, 1, ascii "wrong turn", 1⟩]
        (performAll (newExperiment none 0 none) forkedAfterAbort).disk.archives = .ok () := by
  have hload : loadOperatorFeedbackRecords (performAll (newExperiment none 0 none)
      forkedAfterAbort).disk.feedback = .ok [⟨2, 1, ascii "wrong turn", 1⟩] := by decide +kernel
  exact ⟨hload, (feedback_attached_once none 0 none (by decide) forkedAfterAbort _ hload).1⟩

end Carcer.Experiment
