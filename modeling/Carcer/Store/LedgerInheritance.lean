import Carcer.Store.LedgerRuns

/-!
# Ledgers of new runs

A run that starts from a generation of another one inherits that run's ledger: the new ledger is
read back, and whatever is added to it later, what was inherited stays as it was.

## Main results

* `stored_of_inherited`: the new ledger is stored
* `inheritOperatorRequests_sound`: what was inherited stays
-/

namespace Carcer.Store

open Carcer.Wire Carcer.Json Carcer.Disk List

variable {lib : Library} {source destination run : Directory} {ledger : OperatorRequestLedger}
  {random : Bytes} {generation : UInt64}

/-- The ledger of a new run. -/
def OperatorRequestLedger.inheritedBy (lib : Library) (random : Bytes) (generation : UInt64)
    (ledger : OperatorRequestLedger) : OperatorRequestLedger :=
  { ledger with
    inherited := some ⟨ledger.runID, generation, bytesSHA256 lib (encodeLedger ledger)⟩
    runID := newOperatorRunID random }

theorem hexEncode_cons (byte : UInt8) (bytes : Bytes) : hexEncode (byte :: bytes) =
    hexDigit (byte.toNat / 16) :: hexDigit (byte.toNat % 16) :: hexEncode bytes := rfl

theorem length_hexEncode (bytes : Bytes) : (hexEncode bytes).length = 2 * bytes.length := by
  induction bytes with
  | nil => rfl
  | cons byte bytes ih =>
    rw [hexEncode_cons, length_cons, length_cons, length_cons, ih]
    omega

theorem operatorRunIDValid_new (h : random.length = 16) :
    operatorRunIDValid (newOperatorRunID random) = true := by
  have hdigit : ∀ n < 16, (hexValue (hexDigit n)).isSome = true ∧
      lowerByte (hexDigit n) = hexDigit n := by decide
  have hmem : ∀ digit ∈ newOperatorRunID random,
      (hexValue digit).isSome = true ∧ lowerByte digit = digit := by
    intro digit hmem
    obtain ⟨n, hn, rfl⟩ := mem_hexEncode hmem
    exact hdigit n hn
  simp only [operatorRunIDValid, decide_eq_true_eq, all_eq_true]
  refine ⟨fun digit h => (hmem digit h).1, ?_, ?_⟩
  · rw [newOperatorRunID, length_hexEncode, h]
  · exact (map_congr_left fun digit h => (hmem digit h).2).trans (map_id _)

/-- The run and the inheritance can be exchanged in a valid ledger. -/
theorem validateOperatorRequests_inheritedBy (h : validateOperatorRequests lib ledger = .ok ())
    (hrandom : random.length = 16) :
    validateOperatorRequests lib (ledger.inheritedBy lib random generation) = .ok () := by
  obtain ⟨hschema, -, hrequests, hcount, hrevision⟩ := validateOperatorRequests_eq_ok h
  refine bind_eq_ok.mpr ⟨(), ?_, bind_eq_ok.mpr ⟨ledger.revision, hrevision, ?_⟩⟩
  · simp only [failIf_eq_ok, not_or, not_not, Bool.not_eq_false, not_lt]
    refine ⟨hschema, operatorRunIDValid_new hrandom, ?_, hcount⟩
    rw [OperatorRequestLedger.inheritedBy, hrequests]
    exact Option.some_ne_none _
  · simp [OperatorRequestLedger.inheritedBy]

section

variable (hread : readOperatorRequests lib source = .ok ledger)
include hread

theorem inheritOperatorRequests_eq_ok (hrun : ledger.runID ≠ [])
    (h : inheritOperatorRequests lib random source destination generation = .ok run) :
    run = (destination.put inheritedOperatorRequestsFilename (.file (encodeLedger ledger))).put
        operatorRequestsFilename (.file (ledgerFile (ledger.inheritedBy lib random generation))) ∧
      validateOperatorRequests lib (ledger.inheritedBy lib random generation) = .ok () ∧
      (ledgerFile (ledger.inheritedBy lib random generation)).length ≤ maxOperatorLedgerBytes := by
  obtain ⟨stored, hstored, h⟩ := bind_eq_ok.mp h
  obtain rfl := Except.ok.inj (hread.symm.trans hstored)
  rw [if_neg hrun] at h
  obtain ⟨⟨⟩, -, h⟩ := bind_eq_ok.mp h
  obtain ⟨⟨⟩, hwritten, h⟩ := bind_eq_ok.mp h
  cases h
  rcases writeOperatorRequests_cases lib .none
      (destination.put inheritedOperatorRequestsFilename (.file (encodeLedger ledger)))
      (ledger.inheritedBy lib random generation) with
    ⟨error, hfailed⟩ | ⟨hvalid, hsize, result, hput, -⟩
  · exact absurd (hwritten.symm.trans (congrArg Prod.snd hfailed)) (by simp)
  · exact ⟨congrArg Prod.fst hput, hvalid, hsize⟩

/-- **The ledger of the new run is stored**, with what it was inherited with beside it. -/
theorem stored_of_inherited
    (hrun : ledger.runID ≠ []) (hsize : (encodeLedger ledger).length ≤ maxOperatorLedgerBytes)
    (hfresh : newOperatorRunID random ≠ ledger.runID)
    (h : inheritOperatorRequests lib random source destination generation = .ok run) :
    Stored lib run (ledger.inheritedBy lib random generation) := by
  obtain ⟨rfl, hvalid, hfits⟩ := inheritOperatorRequests_eq_ok hread hrun h
  rcases readOperatorRequests_eq_ok hread with ⟨-, -, rfl⟩ | ⟨-, hsource, hinheritance⟩
  · exact absurd rfl hrun
  have hdecode : decodeOperatorRequests lib (encodeLedger ledger) = .ok ledger := by
    have hencoded := decodeOperatorRequests_encoded hsource
      (inheritanceTexts_of_valid hinheritance) (.inl rfl)
    rwa [append_nil] at hencoded
  refine stored_put hvalid ?_ hfits
  refine validateOperatorInheritance_eq_ok.mpr ⟨ledger.all, ?_, .refl⟩
  refine ⟨encodeLedger ledger, ledger, ?_, hdecode, rfl, hfresh.symm, rfl, rfl⟩
  exact readRegular_eq_ok.mpr ⟨Named.entry_put _ _ _, hsize⟩

/-- Nothing but the limit on the size and a file in the way keeps a ledger from being inherited. -/
theorem exists_inherited (hrun : ledger.runID ≠ []) (hrandom : random.length = 16)
    (hdestination : destination.entry inheritedOperatorRequestsFilename = none)
    (hfits : (ledgerFile (ledger.inheritedBy lib random generation)).length ≤
      maxOperatorLedgerBytes) :
    ∃ run, inheritOperatorRequests lib random source destination generation = .ok run := by
  rcases readOperatorRequests_eq_ok hread with ⟨-, -, rfl⟩ | ⟨-, hsource, -⟩
  · exact absurd rfl hrun
  have hwritten := @writeOperatorRequests_none lib
    (destination.put inheritedOperatorRequestsFilename (.file (encodeLedger ledger))) _
    (validateOperatorRequests_inheritedBy hsource hrandom) hfits
  refine ⟨(destination.put inheritedOperatorRequestsFilename (.file (encodeLedger ledger))).put
    operatorRequestsFilename (.file (ledgerFile (ledger.inheritedBy lib random generation))),
    bind_eq_ok.mpr ⟨ledger, hread, ?_⟩⟩
  rw [if_neg hrun]
  refine bind_eq_ok.mpr ⟨(), ?_, bind_eq_ok.mpr ⟨(), congrArg Prod.snd hwritten,
    congrArg Except.ok (congrArg Prod.fst hwritten)⟩⟩
  simp [hdestination]

end

/-- **What was inherited stays.** Whatever calls follow in the new run, its ledger is stored, so
that it is read back and can be inherited again; it belongs to the new run; and every request of the
source is there with a history that starts with the source's. -/
theorem inheritOperatorRequests_sound (hread : readOperatorRequests lib source = .ok ledger)
    (hrun : ledger.runID ≠ [])
    -- the ledger fits its own file, as every ledger does that was written
    (hsize : (encodeLedger ledger).length ≤ maxOperatorLedgerBytes)
    (hrandom : random.length = 16) (hfresh : newOperatorRunID random ≠ ledger.runID)
    (destination : Directory) (generation : UInt64) :
    (destination.entry inheritedOperatorRequestsFilename = none →
      (ledgerFile (ledger.inheritedBy lib random generation)).length ≤ maxOperatorLedgerBytes →
      ∃ run, inheritOperatorRequests lib random source destination generation = .ok run) ∧
    ∀ run, inheritOperatorRequests lib random source destination generation = .ok run →
      readOperatorRequests lib run = .ok (ledger.inheritedBy lib random generation) ∧
      ∀ calls, ∃ final, readOperatorRequests lib (performAll lib run calls) = .ok final ∧
        Stored lib (performAll lib run calls) final ∧
        final.runID = newOperatorRunID random ∧
        Extends final.runID ledger.all final.all := by
  refine ⟨exists_inherited hread hrun hrandom, fun run hinherit => ?_⟩
  have hstored := stored_of_inherited hread hrun hsize hfresh hinherit
  refine ⟨hstored.read, fun calls => ?_⟩
  obtain ⟨final, hfinal, hgrows⟩ := performAll_stored hstored calls
  refine ⟨final, hfinal.read, hfinal, ?_, hgrows.requests⟩
  exact hgrows.runID.resolve_left
    (ne_nil_of_operatorRunIDValid (validateOperatorRequests_eq_ok hstored.valid).2.1)

/-- A ledger with one request. -/
def sampleLedger : OperatorRequestLedger :=
  ⟨1, newOperatorRunID (List.replicate 16 0), 1, none, some [⟨1, ascii "Shell",
    ascii "Add a shell.", [⟨1, ascii "create", ⟨ascii "operator", ascii "operator",
      newOperatorRunID (List.replicate 16 0), none, [], []⟩, ascii "2026-01-01T00:00:00Z", [], [],
      [], 0⟩]⟩]⟩

/-- A run with that ledger. -/
def sampleRun : Directory := [(operatorRequestsFilename, .file (ledgerFile sampleLedger))]

theorem stored_sampleRun : Stored sampleLibrary sampleRun sampleLedger where
  file := rfl
  size := by decide +kernel
  valid := by decide +kernel
  inheritance := by decide +kernel

/-- The ledger is inherited into an empty directory and read there, and a request of the new run
follows. -/
theorem inheritOperatorRequests_sound_sample : ∃ run final,
    inheritOperatorRequests sampleLibrary (List.replicate 16 1) sampleRun [] 1 = .ok run ∧
    readOperatorRequests sampleLibrary run =
      .ok (sampleLedger.inheritedBy sampleLibrary (List.replicate 16 1) 1) ∧
    readOperatorRequests sampleLibrary
      (performAll sampleLibrary run [(sampleSurroundings, sampleCreate)]) = .ok final ∧
    final.runID = newOperatorRunID (List.replicate 16 1) ∧
    Extends final.runID sampleLedger.all final.all := by
  have hsound := @inheritOperatorRequests_sound sampleLibrary sampleRun sampleLedger
    (List.replicate 16 1) stored_sampleRun.read (by decide +kernel) (by decide +kernel) rfl
    (by decide +kernel) [] 1
  obtain ⟨run, hrun⟩ := hsound.1 rfl (by decide +kernel)
  obtain ⟨hread, hcalls⟩ := hsound.2 run hrun
  obtain ⟨final, hfinal, -, hrunID, hextends⟩ := hcalls [(sampleSurroundings, sampleCreate)]
  exact ⟨run, final, hrun, hread, hfinal, hrunID, hextends⟩

end Carcer.Store
