import Carcer.Provenance.HarnessFile

/-!
# Runs of gate transitions

Every run of `PrepareGateTransition` and `RecordGateTransition` builds up a history: a transition is
added when it leads from the accepted identity to another one. The directory is read as this history
as long as every record is short enough for the reader, and there are less than a million of them:
the writer checks neither.

## Main definitions

* `accepted`: the identity that a history leads to
* `GateCall`, `performGates`: the calls of a run
* `history`: what the calls add up to

## Main results

* `gateTransitions_sound`: the directory is read as the history, whose transitions follow each other
* `gateTransition_unreadable`: a record that the reader refuses
-/

namespace Carcer.Provenance

open Carcer.Wire Carcer.Json Carcer.Disk List

/-! ### Histories -/

/-- The identity that a history leads to: the one recorded last, or that of the run. -/
def accepted (run : Option HarnessIdentity) (transitions : List HarnessGateTransition) :
    Option HarnessIdentity :=
  match transitions.getLast? with
  | some last => some last.current
  | none => run

/-- A call of the store. -/
inductive GateCall
  | prepare (current : HarnessIdentity) (afterGeneration : UInt64)
  | record (suffix : Bytes) (transition : HarnessGateTransition)

/-- The generation of a call. -/
def GateCall.generation : GateCall → UInt64
  | .prepare _ afterGeneration => afterGeneration
  | .record _ transition => transition.afterGeneration

/-- What a call does to the store. -/
def GateCall.perform (store : HarnessStore) : GateCall → HarnessStore
  | .prepare _ _ => store
  | .record suffix transition =>
    match recordGateTransition store suffix transition with
    | .ok store => store
    | .error _ => store

/-- What calls do to the store. -/
def performGates (store : HarnessStore) (calls : List GateCall) : HarnessStore :=
  calls.foldl GateCall.perform store

/-- A transition that leads from the accepted identity to another one. -/
def Leads (run : Option HarnessIdentity) (transitions : List HarnessGateTransition)
    (transition : HarnessGateTransition) : Prop :=
  transition.requiresRecord = true ∧ transition.current.Valid ∧
    accepted run transitions ≠ some transition.current ∧
    transition.previous = accepted run transitions

instance (run : Option HarnessIdentity) (transitions : List HarnessGateTransition)
    (transition : HarnessGateTransition) : Decidable (Leads run transitions transition) :=
  inferInstanceAs (Decidable (_ ∧ _ ∧ _ ∧ _))

/-- What a call adds to the history. -/
def GateCall.extend (run : Option HarnessIdentity) (transitions : List HarnessGateTransition) :
    GateCall → List HarnessGateTransition
  | .prepare _ _ => transitions
  | .record _ transition =>
    if Leads run transitions transition then transitions ++ [transition] else transitions

def history (run : Option HarnessIdentity) (calls : List GateCall) : List HarnessGateTransition :=
  calls.foldl (GateCall.extend run) []

/-- A run without transitions, with or without an identity of its own. -/
def newRun (run : Option HarnessIdentity) : HarnessStore :=
  ⟨run.map fun identity => .file (encodeHarnessJSON identity.asJSON), none, []⟩

variable {run : Option HarnessIdentity} {store : HarnessStore} {entries : Directory}
  {transitions : List HarnessGateTransition} {transition : HarnessGateTransition}
  {calls : List GateCall}

theorem accepted_snoc (run : Option HarnessIdentity) (transitions : List HarnessGateTransition)
    (transition : HarnessGateTransition) :
    accepted run (transitions ++ [transition]) = some transition.current := by
  simp [accepted]

theorem history_snoc (run : Option HarnessIdentity) (calls : List GateCall) (call : GateCall) :
    history run (calls ++ [call]) = call.extend run (history run calls) := by
  simp [history]

theorem mem_history (h : transition ∈ history run calls) :
    ∃ suffix, GateCall.record suffix transition ∈ calls := by
  induction calls using List.reverseRecOn with
  | nil => cases h
  | append_singleton calls call ih =>
    rw [history_snoc] at h
    have hbefore : transition ∈ history run calls →
        ∃ suffix, GateCall.record suffix transition ∈ calls ++ [call] := by
      intro h
      obtain ⟨suffix, hmem⟩ := ih h
      exact ⟨suffix, mem_append_left _ hmem⟩
    cases call with
    | prepare current generation => exact hbefore h
    | record suffix recorded =>
      rw [GateCall.extend] at h
      split at h
      · rcases mem_append.mp h with h | h
        · exact hbefore h
        · obtain rfl := mem_singleton.mp h
          exact ⟨suffix, by simp⟩
      · exact hbefore h

theorem length_history_le (run : Option HarnessIdentity) (calls : List GateCall) (call : GateCall) :
    (history run calls).length ≤ (history run (calls ++ [call])).length := by
  rw [history_snoc]
  cases call with
  | prepare current generation => exact le_rfl
  | record suffix recorded =>
    rw [GateCall.extend]
    split
    · rw [length_append]
      exact Nat.le_add_right _ _
    · exact le_rfl

/-- Each transition of a history starts where the one before it leads. -/
theorem previous_of_history {i : ℕ} (h : (history run calls)[i]? = some transition) :
    transition.previous = accepted run ((history run calls).take i) := by
  induction calls using List.reverseRecOn with
  | nil => simp [history] at h
  | append_singleton calls call ih =>
    rw [history_snoc] at h ⊢
    cases call with
    | prepare current generation => exact ih h
    | record suffix recorded =>
      rw [GateCall.extend] at h ⊢
      split at h
      · rename_i hleads
        rw [if_pos hleads]
        rcases lt_trichotomy i (history run calls).length with hi | rfl | hi
        · rw [getElem?_append_left hi] at h
          rw [take_append_of_le_length hi.le]
          exact ih h
        · rw [getElem?_concat_length] at h
          cases h
          rw [take_left]
          exact hleads.2.2.2
        · rw [getElem?_eq_none (by simp; omega)] at h
          cases h
      · rename_i hleads
        rw [if_neg hleads]
        exact ih h

/-! ### The store of a history -/

/-- The store is read as a history. -/
structure Keeps (run : Option HarnessIdentity) (store : HarnessStore)
    (transitions : List HarnessGateTransition) : Prop where
  identity : runIdentity store.run = .ok run
  directory : ∃ entries, opened store.transitions = some entries ∧ Named.Ordered entries ∧
    Holds store.run entries transitions
  valid : ∀ identity ∈ accepted run transitions, identity.Valid

theorem Keeps.read (h : Keeps run store transitions) : readTransitions store = .ok transitions := by
  obtain ⟨entries, hopened, hordered, hholds⟩ := h.directory
  exact (readTransitions_eq_ok hopened hordered).mpr hholds

theorem Keeps.current (h : Keeps run store transitions) :
    currentIdentity store = .ok (accepted run transitions) := by
  rw [currentIdentity, h.read]
  simp only [bind, Except.bind, accepted]
  cases transitions.getLast? with
  | none => exact h.identity
  | some last => rfl

theorem keeps_newRun (h : ∀ identity ∈ run, identity.Valid ∧
    (encodeHarnessJSON identity.asJSON).length ≤ harnessIdentityLimit) :
    Keeps run (newRun run) [] := by
  refine ⟨?_, ⟨[], rfl, List.Pairwise.nil, rfl, rfl, .nil, rfl⟩, fun identity hidentity =>
    (h identity hidentity).1⟩
  cases run with
  | none => rfl
  | some identity =>
    obtain ⟨hvalid, hlimit⟩ := h identity rfl
    have hread : readHarnessRegular (newRun (some identity)).run =
        .ok (encodeHarnessJSON identity.asJSON) := readHarnessRegular_eq_ok.mpr ⟨rfl, hlimit⟩
    have hparse : parseHarnessIdentity (encodeHarnessJSON identity.asJSON) = .ok identity :=
      parseHarnessIdentity_print hvalid 0 (by decide) hlimit
    rw [runIdentity, hread]
    simp only
    rw [hparse]
    rfl

theorem startsFrom_iff {accepted previous : Option HarnessIdentity}
    (h : ∀ identity ∈ accepted, identity.Valid) :
    startsFrom accepted previous = true ↔ previous = accepted := by
  cases accepted with
  | none => cases previous <;> simp [startsFrom]
  | some identity =>
    cases previous with
    | none => simp [startsFrom]
    | some previous =>
      simp only [startsFrom, equal_iff, h identity rfl, true_and, Option.some.injEq]
      exact eq_comm

theorem any_equal_iff {accepted : Option HarnessIdentity} {identity : HarnessIdentity}
    (h : ∀ identity ∈ accepted, identity.Valid) :
    accepted.any (·.equal identity) = true ↔ accepted = some identity := by
  cases accepted with
  | none => simp
  | some current => simp [equal_iff, h current rfl]

theorem head_names : (ascii "transition-").head? = some 0x74 ∧
    (ascii ".harness-identity-").head? = some 0x2e := by decide +kernel

theorem harnessTemporary_ne_append (suffix rest : Bytes) :
    harnessTemporary suffix ≠ ascii "transition-" ++ rest := by
  intro h
  have hhead := congrArg List.head? h
  rw [harnessTemporary, head?_append, head?_append, head_names.1, head_names.2] at hhead
  exact absurd (Option.some.inj hhead) (by decide)

theorem harnessTemporary_ne (suffix : Bytes) (n : ℕ) :
    harnessTemporary suffix ≠ transitionFileName n := by
  rw [transitionFileName, numbered, append_assoc]
  exact harnessTemporary_ne_append suffix _

/-- No transition has the temporary name of a record. -/
theorem entry_harnessTemporary (h : entries.all isTransitionEntry = true) (suffix : Bytes) :
    Named.entry entries (harnessTemporary suffix) = none := by
  rw [Named.entry_eq_none]
  intro hmem
  obtain ⟨pair, hpair, hname⟩ := mem_map.mp hmem
  have hfile := of_decide_eq_true (all_eq_true.mp h pair hpair)
  obtain ⟨rest, hrest⟩ := hfile.2.1
  exact harnessTemporary_ne_append suffix rest (hname.symm.trans hrest.symm)

/-! ### One call -/

theorem openTransitions_of_opened (h : opened store.transitions = some entries) :
    openTransitions store.transitions = .ok entries := by
  unfold opened at h
  split at h
  iterate 2
    rename_i hplace
    rw [hplace, ← Option.some.inj h]
    rfl
  · cases h

theorem entry_next (h : Holds store.run entries transitions) :
    Named.entry entries (transitionFileName (transitions.length + 1)) = none := by
  rw [Named.entry_eq_none, h.names, transitionFiles]
  intro hmem
  obtain ⟨i, hi, hname⟩ := mem_map.mp hmem
  have hi := mem_range.mp hi
  exact absurd (transitionFileName_injective hname) (by omega)

theorem length_entries (h : Holds store.run entries transitions) :
    entries.length = transitions.length := by
  have hlength := congrArg List.length h.names
  rwa [Named.names, transitionFiles, length_map, length_map, length_range]
    at hlength

/-- The calls of `RecordGateTransition` in a store that is read. -/
theorem recordCalls_eq_ok {current : Option HarnessIdentity} {steps : List Call}
    (hopened : opened store.transitions = some entries)
    (hholds : Holds store.run entries transitions)
    (hcurrent : currentIdentity store = .ok current)
    (hvalid : ∀ identity ∈ current, identity.Valid) {suffix : Bytes} :
    recordCalls store suffix transition = .ok steps ↔
      (steps = [] ∧ (transition.requiresRecord = false ∨
        transition.current.Valid ∧ current = some transition.current)) ∨
      (steps = linked (harnessTemporary suffix) (transitionFileName (transitions.length + 1))
          (encodeHarnessJSON transition.asJSON) ∧
        transition.requiresRecord = true ∧ transition.current.Valid ∧
        current ≠ some transition.current ∧ transition.previous = current) := by
  unfold recordCalls
  rcases hrequired : transition.requiresRecord with _ | _
  · simp [eq_comm]
  have hwrite : writeHarnessBytesOnce entries suffix (transitionFileName (entries.length + 1))
      (encodeHarnessJSON transition.asJSON) = .ok (linked (harnessTemporary suffix)
        (transitionFileName (transitions.length + 1)) (encodeHarnessJSON transition.asJSON)) := by
    rw [length_entries hholds, writeHarnessBytesOnce, entry_next hholds]
    rfl
  simp only [Bool.true_eq_false, if_false, bind_eq_ok, hcurrent, Except.ok.injEq, exists_eq_left',
    HarnessIdentity.Valid, false_or, true_and]
  by_cases hsame : current = some transition.current
  · rw [if_pos ((any_equal_iff hvalid).mpr hsame)]
    simp only [hsame, Except.ok.injEq, ne_eq, not_true_eq_false, false_and, and_false, or_false,
      and_true]
    constructor
    · rintro ⟨_, hcurrent, rfl⟩
      exact ⟨rfl, hcurrent⟩
    · rintro ⟨rfl, hcurrent⟩
      exact ⟨(), hcurrent, rfl⟩
  · rw [if_neg fun h => hsame ((any_equal_iff hvalid).mp h)]
    simp only [bind_eq_ok, failIf_eq_ok, Bool.not_eq_false, startsFrom_iff hvalid,
      openTransitions_of_opened hopened, Except.ok.injEq, exists_eq_left', hwrite, hsame,
      and_false, false_or, not_false_eq_true, true_and, ne_eq]
    constructor
    · rintro ⟨_, hcurrent, _, hprevious, rfl⟩
      exact ⟨rfl, hcurrent, hprevious⟩
    · rintro ⟨rfl, hcurrent, hprevious⟩
      exact ⟨(), hcurrent, (), hprevious, rfl⟩

theorem performCalls_recorded (hopened : opened store.transitions = some entries)
    (hordered : Named.Ordered entries) (hholds : Holds store.run entries transitions)
    (suffix content : Bytes) :
    performCalls store.transitions (linked (harnessTemporary suffix)
        (transitionFileName (transitions.length + 1)) content) =
      some (.directory (Named.put (transitionFileName (transitions.length + 1)) (.file content)
        entries)) := by
  have hcrash := @linked_crash store.transitions entries (harnessTemporary suffix)
    (transitionFileName (transitions.length + 1)) content hopened hordered
    (entry_harnessTemporary hholds.files suffix) (harnessTemporary_ne suffix _) 9
  rcases hcrash with ⟨hn, -⟩ | ⟨hn, -⟩ | ⟨-, hn, -⟩ | ⟨-, hcalls⟩
  iterate 3 omega
  · exact hcalls

theorem checkPrior_of_accepted {run} (hprevious : transition.previous = accepted run transitions)
    (hvalid : ∀ identity ∈ accepted run transitions, identity.Valid)
    (horder : ∀ last ∈ transitions.getLast?, last.afterGeneration ≤ transition.afterGeneration) :
    checkPrior transitions.getLast? transition = .ok () := by
  unfold accepted at hprevious hvalid
  cases hlast : transitions.getLast? with
  | none => rfl
  | some last =>
    rw [hlast] at hprevious hvalid
    have hequal : last.current.equal last.current = true :=
      equal_iff.mpr ⟨hvalid last.current rfl, rfl⟩
    simp [checkPrior, hprevious, hequal, failIf, bind, Except.bind,
      not_lt.mpr (UInt64.le_iff_toNat_le.mp (horder last hlast)), UInt64.lt_iff_toNat_lt]

theorem checkDescent_of_accepted {entry} (hrun : runIdentity entry = .ok run)
    (hdescent : checkDescent entry transitions = .ok ())
    (hprevious : transition.previous = accepted run transitions)
    (hvalid : ∀ identity ∈ accepted run transitions, identity.Valid) :
    checkDescent entry (transitions ++ [transition]) = .ok () := by
  cases transitions with
  | cons first rest => exact hdescent
  | nil =>
    have hprevious : transition.previous = run := hprevious
    rw [nil_append, checkDescent, hrun]
    cases run with
    | none => simp [hprevious, failIf]
    | some identity =>
      have hequal : identity.equal identity = true := equal_iff.mpr ⟨hvalid identity rfl, rfl⟩
      simp [hprevious, hequal, failIf]

theorem Keeps.record_leads (h : Keeps run store transitions)
    (hopened : opened store.transitions = some entries) (hordered : Named.Ordered entries)
    (hholds : Holds store.run entries transitions) (suffix : Bytes)
    (hleads : Leads run transitions transition) :
    recordGateTransition store suffix transition = .ok { store with
      transitions := some (.directory (Named.put (transitionFileName (transitions.length + 1))
        (.file (encodeHarnessJSON transition.asJSON)) entries)) } := by
  have hcalls := (@recordCalls_eq_ok store entries transitions transition _ _ hopened hholds
    h.current h.valid suffix).mpr (.inr ⟨rfl, hleads⟩)
  refine bind_eq_ok.mpr ⟨_, hcalls, ?_⟩
  rw [performCalls_recorded hopened hordered hholds]
  rfl

/-- **One call of `RecordGateTransition`**: the store is read as the history that the call leads to.
-/
theorem Keeps.perform (h : Keeps run store transitions) (suffix : Bytes)
    (horder : ∀ last ∈ transitions.getLast?, last.afterGeneration ≤ transition.afterGeneration)
    (hlimit : (encodeHarnessJSON transition.asJSON).length ≤ harnessIdentityLimit)
    (hcount : transitions.length + 1 < 10 ^ 6 ∨ ¬Leads run transitions transition) :
    Keeps run (GateCall.perform store (.record suffix transition))
      (GateCall.extend run transitions (.record suffix transition)) := by
  obtain ⟨entries, hopened, hordered, hholds⟩ := h.directory
  have hcalls : ∀ {steps}, recordCalls store suffix transition = .ok steps ↔ _ :=
    recordCalls_eq_ok hopened hholds h.current h.valid
  by_cases hleads : Leads run transitions transition
  · have hrecord := h.record_leads hopened hordered hholds suffix hleads
    have hvalid : transition.Valid :=
      ⟨hleads.2.1, fun identity hidentity => h.valid identity (hleads.2.2.2 ▸ hidentity), hleads.1⟩
    simp only [GateCall.perform, hrecord, GateCall.extend, if_pos hleads]
    refine ⟨h.identity, ⟨_, rfl, Named.ordered_put hordered _, ?_⟩, ?_⟩
    · exact hholds.put hvalid hlimit (checkPrior_of_accepted hleads.2.2.2 h.valid horder)
        (checkDescent_of_accepted h.identity hholds.descent hleads.2.2.2 h.valid)
        (hcount.resolve_right (not_not.mpr hleads))
    · intro identity hidentity
      rw [accepted_snoc] at hidentity
      cases hidentity
      exact hvalid.current
  · -- either nothing is to be recorded, or the call fails
    have hsame : GateCall.perform store (.record suffix transition) = store := by
      simp only [GateCall.perform]
      split
      · rename_i next hrecord
        obtain ⟨steps, hsteps, hnext⟩ := bind_eq_ok.mp hrecord
        rcases hcalls.mp hsteps with ⟨rfl, -⟩ | ⟨-, hleads'⟩
        · exact (Except.ok.inj hnext).symm
        · exact absurd hleads' hleads
      · rfl
    rw [hsame, GateCall.extend, if_neg hleads]
    exact h

/-- **Every run keeps its history.** -/
theorem keeps_performGates (hrun : ∀ identity ∈ run, identity.Valid ∧
      (encodeHarnessJSON identity.asJSON).length ≤ harnessIdentityLimit)
    (hgenerations : (calls.map GateCall.generation).Pairwise (· ≤ ·))
    (hlimit : ∀ suffix transition, GateCall.record suffix transition ∈ calls →
      (encodeHarnessJSON transition.asJSON).length ≤ harnessIdentityLimit)
    (hcount : (history run calls).length < 10 ^ 6) :
    Keeps run (performGates (newRun run) calls) (history run calls) := by
  induction calls using List.reverseRecOn with
  | nil => exact keeps_newRun hrun
  | append_singleton calls call ih =>
    rw [map_append, pairwise_append] at hgenerations
    have hkeeps := ih hgenerations.1 (fun suffix transition hmem =>
      hlimit suffix transition (mem_append_left _ hmem))
      (lt_of_le_of_lt (length_history_le run calls call) hcount)
    rw [performGates, foldl_append, history_snoc]
    cases call with
    | prepare current generation => exact hkeeps
    | record suffix transition =>
      refine hkeeps.perform suffix ?_ (hlimit suffix transition (by simp)) ?_
      · intro last hlast
        obtain ⟨other, hmem⟩ := mem_history (mem_of_getLast? hlast)
        exact hgenerations.2.2 _ (mem_map_of_mem hmem) _ (by simp [GateCall.generation])
      · by_cases hleads : Leads run (history run calls) transition
        · rw [history_snoc, GateCall.extend, if_pos hleads, length_append] at hcount
          exact .inl hcount
        · exact .inr hleads

/-! ### The results -/

theorem Keeps.verify (h : Keeps run store transitions) (identity : HarnessIdentity) :
    verifyCurrent store identity = .ok () ↔ accepted run transitions = some identity := by
  simp only [verifyCurrent, bind_eq_ok, h.current, Except.ok.injEq, exists_eq_left']
  cases haccepted : accepted run transitions with
  | none => simp
  | some current =>
    have hvalid := h.valid current haccepted
    simp only [failIf_eq_ok, Bool.not_eq_false, equal_iff, hvalid, true_and, Option.some.injEq]
    constructor
    · exact fun ⟨_, _, heq⟩ => heq
    · rintro rfl
      exact ⟨(), hvalid, rfl⟩

theorem Keeps.prepare (h : Keeps run store transitions) {identity : HarnessIdentity}
    (hvalid : identity.Valid) (generation : UInt64) :
    prepareGateTransition store identity generation = .ok ⟨generation, identity,
      accepted run transitions, decide (accepted run transitions ≠ some identity)⟩ := by
  have hvalidate : validateHarnessIdentity identity = .ok () := hvalid
  have hrequired : (accepted run transitions).all (fun current => !current.equal identity) =
      decide (accepted run transitions ≠ some identity) := by
    rw [Bool.eq_iff_iff, decide_eq_true_eq, ne_eq, ← any_equal_iff h.valid]
    cases accepted run transitions <;> simp
  rw [prepareGateTransition, hvalidate, h.current]
  simp only [bind, Except.bind, hrequired]
  rfl

theorem Keeps.record_accepted (h : Keeps run store transitions)
    (haccepted : accepted run transitions = some transition.current) (suffix : Bytes) :
    recordGateTransition store suffix transition = .ok store := by
  obtain ⟨entries, hopened, hordered, hholds⟩ := h.directory
  have hcalls : recordCalls store suffix transition = .ok [] :=
    (recordCalls_eq_ok hopened hholds h.current h.valid).mpr
      (.inl ⟨rfl, .inr ⟨h.valid _ haccepted, haccepted⟩⟩)
  exact bind_eq_ok.mpr ⟨[], hcalls, rfl⟩

/-- **Gate transitions are read as they were recorded.** For every run of calls whose generations do
not decrease, where the records fit into what the reader reads and are less than a million: after
the calls the directory is read as the history, each transition starts where the one before it
leads, recording the accepted identity changes nothing, the accepted identity is the only one that
`VerifyCurrent` accepts, and `PrepareGateTransition` starts from it. -/
theorem gateTransitions_sound (run : Option HarnessIdentity)
    (hrun : ∀ identity ∈ run, identity.Valid ∧
      (encodeHarnessJSON identity.asJSON).length ≤ harnessIdentityLimit)
    (calls : List GateCall) (hgenerations : (calls.map GateCall.generation).Pairwise (· ≤ ·))
    (hlimit : ∀ suffix transition, GateCall.record suffix transition ∈ calls →
      (encodeHarnessJSON transition.asJSON).length ≤ harnessIdentityLimit)
    (hcount : (history run calls).length < 10 ^ 6) :
    readTransitions (performGates (newRun run) calls) = .ok (history run calls) ∧
    (∀ i transition, (history run calls)[i]? = some transition →
      transition.previous = accepted run ((history run calls).take i)) ∧
    (∀ suffix transition, accepted run (history run calls) = some transition.current →
      recordGateTransition (performGates (newRun run) calls) suffix transition =
        .ok (performGates (newRun run) calls)) ∧
    (∀ identity, verifyCurrent (performGates (newRun run) calls) identity = .ok () ↔
      accepted run (history run calls) = some identity) ∧
    (∀ identity generation, identity.Valid →
      prepareGateTransition (performGates (newRun run) calls) identity generation =
        .ok ⟨generation, identity, accepted run (history run calls),
          decide (accepted run (history run calls) ≠ some identity)⟩) := by
  have hkeeps := keeps_performGates hrun hgenerations hlimit hcount
  exact ⟨hkeeps.read, fun _ _ => previous_of_history,
    fun suffix transition haccepted => hkeeps.record_accepted haccepted suffix, hkeeps.verify,
    fun identity generation hvalid => hkeeps.prepare hvalid generation⟩

/-- A digest and a commit. -/
def sampleDigest : Bytes := List.replicate 64 0x30

@[inherit_doc sampleDigest]
def sampleCommit : Bytes := List.replicate 40 0x62

/-- An identity with a given Go version. -/
def identityWith (goVersion : Bytes) : HarnessIdentity where
  build := {
    goVersion := goVersion
    modulePath := ascii "codexos"
    moduleSum := []
    moduleVersion := ascii "(devel)"
    settingsSHA256 := sampleDigest
    vcs := ascii "git"
    vcsModified := false
    vcsRevision := []
    vcsTime := [] }
  executable := ⟨sampleDigest, 4096⟩
  repositoryCommit := sampleCommit
  repositoryDirty := false
  dirtyTreeSHA256 := none
  schemaVersion := 1

/-- The first two transitions of a run that was created without an identity. -/
def firstCalls : List GateCall :=
  [.prepare (identityWith (ascii "go1.25")) 3,
    .record [] ⟨3, identityWith (ascii "go1.25"), none, true⟩,
    .record [] ⟨5, identityWith (ascii "go1.26"), some (identityWith (ascii "go1.25")), true⟩]

theorem gateTransitions_sound_first :
    readTransitions (performGates (newRun none) firstCalls) = .ok (history none firstCalls) ∧
      history none firstCalls = [⟨3, identityWith (ascii "go1.25"), none, true⟩,
        ⟨5, identityWith (ascii "go1.26"), some (identityWith (ascii "go1.25")), true⟩] := by
  have hlimit : ∀ suffix transition, GateCall.record suffix transition ∈ firstCalls →
      (encodeHarnessJSON transition.asJSON).length ≤ harnessIdentityLimit := by
    intro suffix transition hmem
    obtain ⟨-, rfl⟩ | ⟨-, rfl⟩ : _ ∧ transition = _ ∨ _ ∧ transition = _ := by
      simpa [firstCalls] using hmem
    all_goals decide +kernel
  exact ⟨(gateTransitions_sound none (by simp) firstCalls (by decide +kernel) hlimit
    (by decide +kernel)).1, by decide +kernel⟩

theorem valid_identityWith {goVersion : Bytes} (hne : goVersion ≠ [])
    (hutf8 : utf8Valid goVersion = true) : (identityWith goVersion).Valid := by
  have hparts : validHarnessDigest sampleCommit true = true ∧
      validHarnessDigest sampleDigest false = true ∧ utf8Valid sampleDigest = true ∧
      utf8Valid (ascii "codexos") = true ∧ utf8Valid (ascii "(devel)") = true ∧
      utf8Valid (ascii "git") = true ∧ utf8Valid [] = true ∧ sampleDigest ≠ [] ∧
      ascii "codexos" ≠ [] ∧ ascii "(devel)" ≠ [] := by decide +kernel
  simp [HarnessIdentity.Valid, validateHarnessIdentity, identityWith, harnessIdentitySchemaVersion,
    validHarnessFileIdentity, validHarnessBuildIdentity, validateDirtyTree, hparts, hne, hutf8,
    failIf, bind, Except.bind]

/-- A record is at least as long as the Go version of its identity. -/
theorem length_goVersion_le {goVersion : Bytes} (h : ∀ byte ∈ goVersion, byte < 0x80)
    (hcurrent : transition.current = identityWith goVersion) :
    goVersion.length ≤ (encodeHarnessJSON transition.asJSON).length := by
  have hparts : ∀ part ∈ goVersion.map fun byte => [byte], IsSequence part := by
    intro part hpart
    obtain ⟨byte, hbyte, rfl⟩ := mem_map.mp hpart
    exact isSequence_singleton (h byte hbyte)
  have hescaped : goVersion.length ≤ (escape false goVersion).length := by
    rw [escape, sequences_of_ascii h]
    exact le_trans (by simp) (length_le_flatMap (unread_escapeSequence false) hparts)
  have hstring : (escape false goVersion).length ≤
      (print (escape false) indented 3 (.string goVersion)).length := by
    simp only [print, printString, length_append, length_cons]
    omega
  -- the version is a member of the build, which is one of the identity, which is one of the record
  have hbuild : (ascii "go_version", .string goVersion) ∈
      structMembers buildParts (identityWith goVersion).build := mem_cons_self ..
  have htransition : (ascii "current", (identityWith goVersion).asJSON) ∈
      transitionMembers transition := by
    simp [transitionMembers, hcurrent]
  calc goVersion.length
      ≤ (print (escape false) indented 3 (.string goVersion)).length := hescaped.trans hstring
    _ ≤ (print (escape false) indented 2
          (.object (structMembers buildParts (identityWith goVersion).build))).length :=
        length_print_of_mem _ _ hbuild 2
    _ ≤ (print (escape false) indented 1 (identityWith goVersion).asJSON).length :=
        length_print_of_mem _ _ (mem_structMembers_build _) 1
    _ ≤ (print (escape false) indented 0 transition.asJSON).length :=
        length_print_of_mem _ _ htransition 0
    _ ≤ (encodeHarnessJSON transition.asJSON).length := by
        rw [encodeHarnessJSON, length_append]
        exact Nat.le_add_right _ _

theorem readTransitions_tooLarge (run : Option Entry) (generations : Directory) {content : Bytes}
    (h : harnessIdentityLimit < content.length) :
    readTransitions ⟨run, some (.directory [(transitionFileName 1, .file content)]), generations⟩ =
      .error (.read .tooLarge) := by
  have hordered : Named.Ordered [(transitionFileName 1, Entry.file content)] :=
    pairwise_singleton _ _
  have hread : readHarnessRegular (some (.file content)) = .error (.read .tooLarge) := by
    rw [readHarnessRegular, readRegular, if_pos h]
    rfl
  have hentry : Named.entry [(transitionFileName 1, Entry.file content)] (transitionFileName 1) =
      some (.file content) := by
    simp [Named.entry]
  have hsorted :
      ([transitionFileName 1]).mergeSort (fun a b => decide (a ≤ b)) = [transitionFileName 1] :=
    mergeSort_names hordered
  have hnames :
      Named.names [(transitionFileName 1, Entry.file content)] = [transitionFileName 1] := rfl
  simp only [readTransitions, hnames, hsorted, all_cons, all_nil,
    isTransitionEntry_file, foldlM_cons, readNext, length_nil, Nat.zero_add, hentry,
    hread, failIf, bind, Except.bind, Bool.and_true, Bool.true_eq_false, if_false, ne_eq,
    not_true_eq_false]

/-- **A record that the reader refuses.** An identity is valid whatever the length of its Go
version, and its transition is recorded; but no record of more than 256 KiB is read. -/
theorem gateTransition_unreadable :
    ∃ transition store, prepareGateTransition (newRun none)
        (identityWith (List.replicate 262145 0x61)) 0 = .ok transition ∧
      recordGateTransition (newRun none) [] transition = .ok store ∧
      readTransitions store = .error (.read .tooLarge) := by
  have hascii : ∀ byte ∈ List.replicate 262145 (0x61 : UInt8), byte < 0x80 := by
    intro byte hbyte
    rw [(mem_replicate.mp hbyte).2]
    decide
  have hvalid : (identityWith (List.replicate 262145 0x61)).Valid :=
    valid_identityWith (by rw [ne_eq, replicate_eq_nil_iff]; decide)
      (utf8Valid_of_ascii hascii)
  have hlong : harnessIdentityLimit < (encodeHarnessJSON (HarnessGateTransition.asJSON
      ⟨0, identityWith (List.replicate 262145 0x61), none, true⟩)).length := by
    have hlength := @length_goVersion_le
      ⟨0, identityWith (List.replicate 262145 0x61), none, true⟩ _ hascii rfl
    rw [length_replicate] at hlength
    exact lt_of_lt_of_le (by decide) hlength
  generalize identityWith (List.replicate 262145 0x61) = identity at hvalid hlong ⊢
  have hkeeps : Keeps none (newRun none) [] := keeps_newRun (by simp)
  have hrecord := hkeeps.record_leads rfl List.Pairwise.nil (⟨rfl, rfl, .nil, rfl⟩) []
    (⟨rfl, hvalid, by simp [accepted], rfl⟩ : Leads none [] ⟨0, identity, none, true⟩)
  exact ⟨_, _, hkeeps.prepare hvalid 0, hrecord, readTransitions_tooLarge none [] hlong⟩

end Carcer.Provenance
