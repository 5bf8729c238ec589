import Carcer.Store.LedgerFile

/-!
# Ledgers that grow

What it means that a ledger of operator requests grows: requests are added behind the others and
entries behind the histories, all by the run the ledger belongs to. The check of the inheritance
says just this of the ledger and the one it was inherited with.

## Main definitions

* `Continues`, `Extends`: entries and requests are added, all by the run
* `Origin`: the requests that a ledger was inherited with
* `Stored`: the file of a run is what its ledger is written to

## Main results

* `validateOperatorInheritance_eq_ok`: the ledger extends what it was inherited with
* `readOperatorRequests_eq_ok`: what was read is valid
* `Stored.read`: a stored ledger is read back
-/

namespace Carcer.Store

open Carcer.Wire Carcer.Json Carcer.Disk List

variable {lib : Library} {run : Directory} {ledger : OperatorRequestLedger}

/-! ### Requests that grow -/

/-- A request goes on: entries are added behind its history, all by the run. -/
structure Continues (runID : Bytes) (before after : OperatorRequest) : Prop where
  title : after.title = before.title
  description : after.description = before.description
  history : ∃ tail, after.history = before.history ++ tail ∧
    ∀ entry ∈ tail, entry.actor.runID = runID

/-- Requests go on, and requests of the run are added behind them. -/
structure Extends (runID : Bytes) (before after : List OperatorRequest) : Prop where
  kept : ∀ (i : ℕ) request, before[i]? = some request →
    ∃ next, after[i]? = some next ∧ Continues runID request next
  added : ∀ (i : ℕ) next, before[i]? = none → after[i]? = some next →
    ∀ entry ∈ next.history, entry.actor.runID = runID

section Growth

variable {runID : Bytes} {first second third : OperatorRequest}
  {before middle after : List OperatorRequest}

theorem Continues.refl : Continues runID first first :=
  ⟨rfl, rfl, [], (append_nil _).symm, by simp⟩

theorem Continues.trans (h : Continues runID first second) (h' : Continues runID second third) :
    Continues runID first third := by
  obtain ⟨tail, htail, hby⟩ := h.history
  obtain ⟨tail', htail', hby'⟩ := h'.history
  refine ⟨h'.title.trans h.title, h'.description.trans h.description, tail ++ tail', ?_, ?_⟩
  · rw [htail', htail, append_assoc]
  · intro entry hentry
    exact (mem_append.mp hentry).elim (hby entry) (hby' entry)

theorem Extends.refl : Extends runID before before where
  kept _ request hi := ⟨request, hi, .refl⟩
  added _ _ hnone hi := absurd (hnone.symm.trans hi) (by simp)

theorem Extends.trans (h : Extends runID before middle) (h' : Extends runID middle after) :
    Extends runID before after where
  kept i request hi := by
    obtain ⟨next, hnext, hcontinues⟩ := h.kept i request hi
    obtain ⟨last, hlast, hcontinues'⟩ := h'.kept i next hnext
    exact ⟨last, hlast, hcontinues.trans hcontinues'⟩
  added i last hnone hi := by
    cases hmiddle : middle[i]? with
    | none => exact h'.added i last hmiddle hi
    | some next =>
      -- the request was added at first and went on later
      obtain ⟨last', hlast', hcontinues⟩ := h'.kept i next hmiddle
      obtain rfl := Option.mem_unique hi hlast'
      obtain ⟨tail, htail, hby⟩ := hcontinues.history
      rw [htail]
      intro entry hentry
      exact (mem_append.mp hentry).elim (h.added i next hnone hmiddle entry) (hby entry)

theorem Extends.eq_nil (h : Extends runID before []) : before = [] := by
  cases before with
  | nil => rfl
  | cons request rest =>
    obtain ⟨next, hnext, -⟩ := h.kept 0 request rfl
    cases hnext

theorem extends_nil : Extends runID [] after ↔
    ∀ request ∈ after, ∀ entry ∈ request.history, entry.actor.runID = runID := by
  constructor
  · intro h request hrequest
    obtain ⟨i, hi⟩ := mem_iff_getElem?.mp hrequest
    exact h.added i request rfl hi
  · intro h
    exact ⟨fun i request hi => absurd hi (by simp), fun i next _ hi =>
      h next (mem_of_getElem? hi)⟩

theorem extends_concat (h : ∀ entry ∈ first.history, entry.actor.runID = runID) :
    Extends runID before (before ++ [first]) where
  kept i request hi := by
    obtain ⟨hlt, -⟩ := List.getElem?_eq_some_iff.mp hi
    exact ⟨request, by rw [getElem?_append_left hlt, hi], .refl⟩
  added i next hnone hi := by
    have hle := List.getElem?_eq_none_iff.mp hnone
    rw [getElem?_append_right hle] at hi
    obtain rfl := mem_singleton.mp (mem_of_getElem? hi)
    exact h

theorem extends_set {place : ℕ} (hplace : before[place]? = some first)
    (h : Continues runID first second) : Extends runID before (before.set place second) where
  kept i request hi := by
    obtain ⟨hlt, -⟩ := List.getElem?_eq_some_iff.mp hi
    by_cases hplace' : place = i
    · subst hplace'
      obtain rfl := Option.mem_unique hi hplace
      exact ⟨second, getElem?_set_self hlt, h⟩
    · exact ⟨request, by rw [getElem?_set_ne hplace', hi], .refl⟩
  added i next hnone hi := by
    have hle := List.getElem?_eq_none_iff.mp hnone
    obtain ⟨hlt, -⟩ := List.getElem?_eq_some_iff.mp hi
    rw [length_set] at hlt
    omega

end Growth

/-! ### The inheritance -/

theorem attributed_iff {runID : Bytes} {start : ℕ} {request : OperatorRequest} :
    attributed runID start request = true ↔
      ∀ entry ∈ request.history.drop start, entry.actor.runID = runID := by
  simp [attributed]

/-- The requests that a ledger was inherited with. -/
def Origin (lib : Library) (run : Directory) (runID : Bytes) (parent : List OperatorRequest) :
    Option OperatorRequestInheritance → Prop
  | none => run.entry inheritedOperatorRequestsFilename = none ∧ parent = []
  | some inherited => ∃ data original,
    readRegular (run.entry inheritedOperatorRequestsFilename) maxOperatorLedgerBytes = .ok data ∧
    decodeOperatorRequests lib data = .ok original ∧ original.runID = inherited.runID ∧
    original.runID ≠ runID ∧ bytesSHA256 lib data = inherited.sha256 ∧ parent = original.all

theorem validateInherited_eq_ok {parent : List OperatorRequest} {runID : Bytes}
    {request : OperatorRequest} {i : ℕ} :
    validateInherited parent runID (request, i) = .ok () ↔
      match parent[i]? with
      | none => ∀ entry ∈ request.history, entry.actor.runID = runID
      | some original => Continues runID original request := by
  unfold validateInherited
  simp only
  rcases parent[i]? with _ | original
  · simp only [failIf_eq_ok, Bool.not_eq_false, attributed_iff, drop_zero]
  simp only
  constructor
  · intro h
    obtain ⟨⟨⟩, haltered, hforeign⟩ := bind_eq_ok.mp h
    simp only [failIf_eq_ok, not_or, not_not, Bool.not_eq_false] at haltered hforeign
    obtain ⟨tail, htail⟩ := haltered.2.2
    rw [attributed_iff, ← htail, drop_left] at hforeign
    exact ⟨haltered.1, haltered.2.1, tail, htail.symm, hforeign⟩
  · intro h
    obtain ⟨tail, htail, hby⟩ := h.history
    refine bind_eq_ok.mpr ⟨(), ?_, ?_⟩
    · simp only [failIf_eq_ok, not_or, not_not]
      exact ⟨h.title, h.description, tail, htail.symm⟩
    · simp only [failIf_eq_ok, Bool.not_eq_false]
      rw [attributed_iff, htail, drop_left]
      exact hby

theorem forM_validateInherited {parent requests : List OperatorRequest} {runID : Bytes}
    (hlength : parent.length ≤ requests.length) :
    requests.zipIdx.forM (validateInherited parent runID) = .ok () ↔
      Extends runID parent requests := by
  rw [forM_eq_ok]
  constructor
  · intro h
    have hat : ∀ (i : ℕ) request, requests[i]? = some request →
        validateInherited parent runID (request, i) = .ok () :=
      fun i request hi => h _ (mk_mem_zipIdx_iff_getElem?.mpr hi)
    refine ⟨fun i original hi => ?_, fun i next hnone hi => ?_⟩
    · obtain ⟨hlt, -⟩ := List.getElem?_eq_some_iff.mp hi
      have hget : requests[i]? = some requests[i] := getElem?_eq_getElem (by omega)
      have hok := validateInherited_eq_ok.mp (hat i _ hget)
      rw [hi] at hok
      exact ⟨_, hget, hok⟩
    · have hok := validateInherited_eq_ok.mp (hat i next hi)
      rw [hnone] at hok
      exact hok
  · rintro h ⟨request, i⟩ hmem
    have hi := mk_mem_zipIdx_iff_getElem?.mp hmem
    refine validateInherited_eq_ok.mpr ?_
    cases hparent : parent[i]? with
    | none => exact h.added i request hparent hi
    | some original =>
      obtain ⟨next, hnext, hcontinues⟩ := h.kept i original hparent
      obtain rfl := Option.mem_unique hi hnext
      exact hcontinues

theorem Extends.length_le {runID : Bytes} {before after}
    (h : Extends runID before after) : before.length ≤ after.length := by
  by_contra hlt
  have hget : before[after.length]? = some (before.get ⟨after.length, by omega⟩) :=
    getElem?_eq_getElem _
  obtain ⟨next, hnext, -⟩ := h.kept _ _ hget
  simp at hnext

/-- **The check of the inheritance** says that the ledger extends what it was inherited with. -/
theorem validateOperatorInheritance_eq_ok :
    validateOperatorInheritance lib run ledger = .ok () ↔
      ∃ parent, Origin lib run ledger.runID parent ledger.inherited ∧
        Extends ledger.runID parent ledger.all := by
  unfold validateOperatorInheritance
  rcases ledger.inherited with _ | inherited
  · have hall : ledger.all.all (attributed ledger.runID 0) = true ↔
        Extends ledger.runID [] ledger.all := by
      simp only [all_eq_true, attributed_iff, drop_zero, extends_nil]
    constructor
    · intro h
      obtain ⟨⟨⟩, hentry, h⟩ := bind_eq_ok.mp h
      simp only [failIf_eq_ok, Bool.not_eq_true, Option.isSome_eq_false_iff,
        Option.isNone_iff_eq_none, Bool.not_eq_false] at hentry h
      exact ⟨[], ⟨hentry, rfl⟩, hall.mp h⟩
    · rintro ⟨parent, ⟨hentry, rfl⟩, hextends⟩
      refine bind_eq_ok.mpr ⟨(), ?_, ?_⟩
      · simp [hentry]
      · simpa using hall.mpr hextends
  constructor
  · intro h
    obtain ⟨data, hdata, h⟩ := bind_eq_ok.mp h
    obtain ⟨original, hdecode, h⟩ := bind_eq_ok.mp h
    obtain ⟨⟨⟩, hidentity, h⟩ := bind_eq_ok.mp h
    simp only [failIf_eq_ok, not_or, not_not, not_lt] at hidentity
    obtain ⟨hrun, hne, hsha, hlength⟩ := hidentity
    exact ⟨original.all, ⟨data, original, mapError_eq_ok.mp hdata, hdecode, hrun, hne, hsha, rfl⟩,
      (forM_validateInherited hlength).mp h⟩
  · rintro ⟨parent, ⟨data, original, hdata, hdecode, hrun, hne, hsha, rfl⟩, hextends⟩
    refine bind_eq_ok.mpr ⟨data, mapError_eq_ok.mpr hdata, ?_⟩
    refine bind_eq_ok.mpr ⟨original, hdecode, ?_⟩
    refine bind_eq_ok.mpr ⟨(), ?_, (forM_validateInherited hextends.length_le).mpr hextends⟩
    simp only [failIf_eq_ok, not_or, not_not, not_lt]
    exact ⟨hrun, hne, hsha, hextends.length_le⟩

theorem decodeOperatorRequests_eq_ok {data : Bytes}
    (h : decodeOperatorRequests lib data = .ok ledger) :
    validateOperatorRequests lib ledger = .ok () := by
  obtain ⟨⟨⟩, -, h⟩ := bind_eq_ok.mp h
  split at h
  · cases h
  split at h
  · cases h
  obtain ⟨⟨⟩, -, h⟩ := bind_eq_ok.mp h
  obtain ⟨⟨⟩, hvalid, h⟩ := bind_eq_ok.mp h
  cases h
  exact hvalid

theorem mem_hexEncode {bytes : Bytes} {digit : UInt8} (h : digit ∈ hexEncode bytes) :
    ∃ n < 16, digit = hexDigit n := by
  obtain ⟨byte, -, hdigit⟩ := mem_flatMap.mp h
  have hlt : byte.toNat < 256 := byte.toNat_lt
  simp only [mem_cons, not_mem_nil, or_false] at hdigit
  rcases hdigit with rfl | rfl
  · exact ⟨byte.toNat / 16, by omega, rfl⟩
  · exact ⟨byte.toNat % 16, by omega, rfl⟩

theorem utf8Valid_hexEncode (bytes : Bytes) : utf8Valid (hexEncode bytes) = true := by
  have hascii : ∀ n < 16, hexDigit n < 0x80 := by decide
  refine utf8Valid_of_ascii fun digit hdigit => ?_
  obtain ⟨n, hn, rfl⟩ := mem_hexEncode hdigit
  exact hascii n hn

theorem inheritanceTexts_of_valid (h : validateOperatorInheritance lib run ledger = .ok ()) :
    ∀ inherited ∈ ledger.inherited, InheritanceTexts inherited := by
  obtain ⟨parent, horigin, -⟩ := validateOperatorInheritance_eq_ok.mp h
  intro inherited hinherited
  rw [Option.mem_def.mp hinherited] at horigin
  obtain ⟨data, original, -, hdecode, hrun, -, hsha, -⟩ := horigin
  refine ⟨?_, ?_⟩
  · rw [← hrun]
    exact (ledgerTexts_of_valid (decodeOperatorRequests_eq_ok hdecode)).runID
  · rw [← hsha]
    exact utf8Valid_hexEncode _

/-! ### Reading -/

/-- The ledger of a run that has none. -/
def noLedger : OperatorRequestLedger := ⟨1, [], 0, none, some []⟩

/-- **What was read** is the ledger of the file, which is valid, or there is none. -/
theorem readOperatorRequests_eq_ok (h : readOperatorRequests lib run = .ok ledger) :
    (run.entry operatorRequestsFilename = none ∧
      run.entry inheritedOperatorRequestsFilename = none ∧ ledger = noLedger) ∨
    ((∃ data, run.entry operatorRequestsFilename = some (.file data)) ∧
      validateOperatorRequests lib ledger = .ok () ∧
      validateOperatorInheritance lib run ledger = .ok ()) := by
  unfold readOperatorRequests at h
  split at h
  · rename_i hmissing
    obtain ⟨⟨⟩, hinherited, h⟩ := bind_eq_ok.mp h
    refine .inl ⟨readRegular_eq_notExist.mp hmissing, ?_, (Except.ok.inj h).symm⟩
    simpa using hinherited
  · cases h
  rename_i data hdata
  obtain ⟨stored, hdecode, h⟩ := bind_eq_ok.mp h
  obtain ⟨⟨⟩, hinheritance, h⟩ := bind_eq_ok.mp h
  cases h
  exact .inr ⟨⟨data, (readRegular_eq_ok.mp hdata).1⟩, decodeOperatorRequests_eq_ok hdecode,
    hinheritance⟩

theorem ledgerSound_noLedger : LedgerSound noLedger where
  request i request hi := by cases hi
  count := by decide
  revision := rfl

theorem ledgerSound_of_read (h : readOperatorRequests lib run = .ok ledger) :
    LedgerSound ledger := by
  rcases readOperatorRequests_eq_ok h with ⟨-, -, rfl⟩ | ⟨-, hvalid, -⟩
  · exact ledgerSound_noLedger
  · exact ledgerSound_of_valid hvalid

theorem ne_nil_of_operatorRunIDValid {value : Bytes} (h : operatorRunIDValid value = true) :
    value ≠ [] := by
  rintro rfl
  revert h
  decide

theorem eq_noLedger_of_runID (h : readOperatorRequests lib run = .ok ledger)
    (hrun : ledger.runID = []) : ledger = noLedger := by
  rcases readOperatorRequests_eq_ok h with ⟨-, -, rfl⟩ | ⟨-, hvalid, -⟩
  · rfl
  · exact absurd hrun (ne_nil_of_operatorRunIDValid (validateOperatorRequests_eq_ok hvalid).2.1)

theorem validateOperatorInheritance_congr {run' : Directory}
    (h : run'.entry inheritedOperatorRequestsFilename =
      run.entry inheritedOperatorRequestsFilename) :
    validateOperatorInheritance lib run' ledger = validateOperatorInheritance lib run ledger := by
  unfold validateOperatorInheritance
  rw [h]

theorem readOperatorRequests_congr {run' : Directory}
    (hfile : run'.entry operatorRequestsFilename = run.entry operatorRequestsFilename)
    (hinherited : run'.entry inheritedOperatorRequestsFilename =
      run.entry inheritedOperatorRequestsFilename) :
    readOperatorRequests lib run' = readOperatorRequests lib run := by
  unfold readOperatorRequests
  simp only [hfile, hinherited, validateOperatorInheritance_congr hinherited]

/-- The file that a ledger is written to. -/
def ledgerFile (ledger : OperatorRequestLedger) : Bytes := encodeLedger ledger ++ [0x0a]

/-- The file of a run is what its ledger is written to. -/
structure Stored (lib : Library) (run : Directory) (ledger : OperatorRequestLedger) : Prop where
  file : run.entry operatorRequestsFilename = some (.file (ledgerFile ledger))
  size : (ledgerFile ledger).length ≤ maxOperatorLedgerBytes
  valid : validateOperatorRequests lib ledger = .ok ()
  inheritance : validateOperatorInheritance lib run ledger = .ok ()

/-- **A stored ledger is read back.** -/
theorem Stored.read (h : Stored lib run ledger) : readOperatorRequests lib run = .ok ledger := by
  have hread : readRegular (run.entry operatorRequestsFilename) maxOperatorLedgerBytes =
      .ok (ledgerFile ledger) := readRegular_eq_ok.mpr ⟨h.file, h.size⟩
  have hdecode : decodeOperatorRequests lib (ledgerFile ledger) = .ok ledger :=
    decodeOperatorRequests_encoded h.valid (inheritanceTexts_of_valid h.inheritance) (.inr rfl)
  unfold readOperatorRequests
  rw [hread]
  simp only [hdecode]
  refine bind_eq_ok.mpr ⟨ledger, rfl, ?_⟩
  exact bind_eq_ok.mpr ⟨(), h.inheritance, rfl⟩

end Carcer.Store
