import Carcer.Provenance.HarnessRuns
import Carcer.Store.FeatureRuns

/-!
# Crashes while a record is written

Feature requests and harness transitions are staged under a temporary name in the directory of the
records. The readers refuse a directory with any name that is not one of a record, the temporary
ones among them: after a crash between the creation of the temporary file and the rename, or the
removal behind the link, the store is not read again.

## Main results

* `featureWrite_crash`, `transitionWrite_crash`: what a crash leaves to the readers
* `recordWrites_crash`: both, for every write and every crash point
* `featureWrite_crash_unreadable`: a directory that is refused
-/

namespace Carcer.Store

open Carcer.Wire Carcer.Json Carcer.Disk Carcer.Provenance Carcer.Store.Feature

/-! ### Feature requests -/

section Feature

variable {store : FeatureRequestStore} {suffix : Bytes} {request : FeatureRequest}
  {entries : Directory} {requests : Requests}

theorem readFeatureRequests_temporary (hordered : Named.Ordered entries) (id : UInt64)
    (suffix : Bytes) (entry : Entry) :
    readFeatureRequests (some (.directory
      (Named.put (temporaryName id suffix) entry entries))) ≠ .ok requests := by
  intro hread
  have hentry := entry_temporaryName (Named.ordered_put hordered entry) hread id suffix
  rw [Named.entry_put] at hentry
  cases hentry

/-- **A crash while a feature request is written.** -/
theorem featureWrite_crash (h : Consistent store) {replace : Bool} {calls}
    (hwrite : writeCalls store.place suffix request replace = .ok calls) (n : ℕ) :
    (∃ after, readFeatureRequests (performCalls store.place (calls.take n)) = .ok after ∧
      (after = store.requests ∨ after = store.requests.insert request.id request)) ↔
      n < 2 ∨ 6 ≤ n := by
  obtain ⟨hvalid, -, rfl⟩ := (writeCalls_eq_ok h).mp hwrite
  obtain ⟨entries, hopened, hordered, hread, -⟩ := h.opened
  have hcrash := @renamed_crash store.place entries (temporaryName request.id suffix)
    (requestName request.id) (encodeFeatureRequest request) hopened hordered
    (entry_temporaryName hordered hread request.id suffix) (temporaryName_ne request.id suffix) n
  rcases hcrash with ⟨hn, hleft⟩ | ⟨hn, hleft⟩ | ⟨hlow, hhigh, staged, hleft⟩ | ⟨hn, hleft⟩
  · rw [hleft]
    exact ⟨fun _ => .inl (by omega), fun _ => ⟨_, h.read, .inl rfl⟩⟩
  · rw [hleft]
    exact ⟨fun _ => .inl (by omega), fun _ => ⟨_, hread, .inl rfl⟩⟩
  · rw [hleft]
    constructor
    · rintro ⟨after, hafter, -⟩
      exact absurd hafter (readFeatureRequests_temporary hordered request.id suffix staged)
    · intro hn
      omega
  · rw [hleft]
    exact ⟨fun _ => .inr hn, fun _ => ⟨_, readFeatureRequests_put hordered hread hvalid, .inr rfl⟩⟩

end Feature

/-! ### Harness transitions -/

section Transition

variable {store : HarnessStore} {suffix : Bytes} {transition : HarnessGateTransition}
  {transitions : List HarnessGateTransition} {entries : Directory}

theorem valid_of_parse {encoded : Bytes} {identity}
    (h : parseHarnessIdentity encoded = .ok identity) : identity.Valid := by
  simp only [parseHarnessIdentity, bind_eq_ok] at h
  obtain ⟨_, _, _, _, _, _, _, _, h⟩ := h
  unfold decodeIdentity at h
  split at h
  · cases h
  split at h
  · cases h
  simp only [bind_eq_ok, pure, Except.pure, Except.ok.injEq] at h
  obtain ⟨_, _, _, hvalid, rfl⟩ := h
  exact hvalid

theorem valid_of_runIdentity {run identity} (h : runIdentity run = .ok (some identity)) :
    identity.Valid := by
  unfold runIdentity at h
  split at h
  · rename_i encoded hread
    cases hparse : parseHarnessIdentity encoded with
    | error error =>
      rw [hparse] at h
      cases h
    | ok parsed =>
      rw [hparse] at h
      obtain rfl : parsed = identity := Option.some.inj (Except.ok.inj h)
      exact valid_of_parse hparse
  · cases h
  · cases h

theorem valid_of_decode {encoded : Bytes} (h : decodeHarnessTransition encoded = .ok transition) :
    transition.current.Valid := by
  unfold decodeHarnessTransition at h
  split at h
  · cases h
  simp only [bind_eq_ok, pure, Except.pure, Except.ok.injEq] at h
  obtain ⟨_, _, _, _, current, hcurrent, _, _, rfl⟩ := h
  exact valid_of_parse hcurrent

theorem valid_of_recorded (h : Recorded entries transitions)
    {last} (hlast : last ∈ transitions.getLast?) : last.current.Valid := by
  cases h with
  | nil => cases hlast
  | snoc rest file limit decoded prior =>
    rw [List.getLast?_concat] at hlast
    cases hlast
    exact valid_of_decode decoded

/-- The identity that is accepted is valid, whoever has written the records. -/
theorem valid_of_currentIdentity (hread : readTransitions store = .ok transitions)
    (hopened : opened store.transitions = some entries) (hordered : Named.Ordered entries)
    {identity} (h : currentIdentity store = .ok (some identity)) : identity.Valid := by
  rw [currentIdentity, hread] at h
  simp only [bind, Except.bind] at h
  have hholds := (readTransitions_eq_ok hopened hordered).mp hread
  split at h
  · rename_i last hlast
    obtain rfl : last.current = identity := Option.some.inj (Except.ok.inj h)
    exact valid_of_recorded hholds.recorded hlast
  · exact valid_of_runIdentity h

theorem readTransitions_temporary {left}
    (hleft : (Named.entry left (harnessTemporary suffix)).isSome = true) :
    readTransitions { store with transitions := some (.directory left) } ≠ .ok transitions := by
  intro hread
  simp only [readTransitions, bind_eq_ok, failIf_eq_ok, Bool.not_eq_false] at hread
  obtain ⟨_, hfiles, -⟩ := hread
  rw [entry_harnessTemporary hfiles] at hleft
  cases hleft

/-- What the reader asks of a record that was written completely. -/
theorem holds_put_iff (hholds : Holds store.run entries transitions)
    (hordered : Named.Ordered entries) (hvalid : transition.Valid)
    (hancestry : ∀ last ∈ transitions.getLast?, transition.previous = some last.current)
    (hdescent : checkDescent store.run (transitions ++ [transition]) = .ok ()) :
    (∃ after, Holds store.run (Named.put (transitionFileName (transitions.length + 1))
        (.file (encodeHarnessJSON transition.asJSON)) entries) after ∧
      (after = transitions ∨ after = transitions ++ [transition])) ↔
      (encodeHarnessJSON transition.asJSON).length ≤ harnessIdentityLimit ∧
      (∀ last ∈ transitions.getLast?, last.afterGeneration ≤ transition.afterGeneration) ∧
      transitions.length + 1 < 10 ^ 6 := by
  constructor
  · rintro ⟨after, hafter, hold | rfl⟩
    · -- the name of the new record is not one of the old ones
      rw [hold] at hafter
      have hentry := entry_next hafter
      rw [Named.entry_put] at hentry
      cases hentry
    · have hcount : transitions.length + 1 < 10 ^ 6 := by
        have hnames := @Named.ordered_put _ (transitionFileName (transitions.length + 1)) _ hordered
          (.file (encodeHarnessJSON transition.asJSON))
        rw [Named.Ordered, hafter.names, List.length_append] at hnames
        exact transitionFiles_ordered.mp hnames
      have hrecorded := hafter.recorded
      generalize hsnoc : transitions ++ [transition] = after at hrecorded
      cases hrecorded with
      | nil => simp at hsnoc
      | @snoc before last content hbefore hfile hlimit hdecode hprior =>
        obtain ⟨rfl, hlast⟩ := List.append_inj' hsnoc rfl
        obtain rfl := List.singleton_inj.mp hlast
        rw [Named.entry_put] at hfile
        obtain rfl := Entry.file.inj (Option.some.inj hfile)
        refine ⟨hlimit, fun last hlast => ?_, hcount⟩
        rw [Option.mem_def.mp hlast, checkPrior] at hprior
        simp only [bind_eq_ok, failIf_eq_ok] at hprior
        obtain ⟨_, _, horder⟩ := hprior
        exact UInt64.not_lt.mp horder
  · rintro ⟨hlimit, horder, hcount⟩
    refine ⟨_, hholds.put hvalid hlimit ?_ hdescent hcount, .inr rfl⟩
    cases hlast : transitions.getLast? with
    | none => rfl
    | some last =>
      have hequal : last.current.equal last.current = true :=
        equal_iff.mpr ⟨valid_of_recorded hholds.recorded hlast, rfl⟩
      simp [checkPrior, hancestry last hlast, hequal, failIf, bind, Except.bind,
        not_lt.mpr (UInt64.le_iff_toNat_le.mp (horder last hlast)), UInt64.lt_iff_toNat_lt]

/-- The identity that was accepted before is where a written transition starts. -/
theorem checks_of_written {current} (hread : readTransitions store = .ok transitions)
    (hcurrent : currentIdentity store = .ok current) (hprevious : transition.previous = current)
    (hvalid : ∀ identity ∈ current, identity.Valid)
    (hdescent : checkDescent store.run transitions = .ok ()) :
    (∀ last ∈ transitions.getLast?, transition.previous = some last.current) ∧
      checkDescent store.run (transitions ++ [transition]) = .ok () := by
  rw [currentIdentity, hread] at hcurrent
  simp only [bind, Except.bind] at hcurrent
  constructor
  · intro last hlast
    rw [Option.mem_def.mp hlast] at hcurrent
    rw [hprevious, ← Except.ok.inj hcurrent]
  · cases transitions with
    | cons first rest => exact hdescent
    | nil =>
      have hrun : runIdentity store.run = .ok current := hcurrent
      exact checkDescent_of_accepted hrun rfl hprevious hvalid

/-- **A crash while a harness transition is written.** -/
theorem transitionWrite_crash (hlisted : Listed store.transitions)
    (hread : readTransitions store = .ok transitions) {calls}
    (hwrite : recordCalls store suffix transition = .ok calls) (hcalls : calls ≠ []) (n : ℕ) :
    (∃ after, readTransitions
        { store with transitions := performCalls store.transitions (calls.take n) } = .ok after ∧
      (after = transitions ∨ after = transitions ++ [transition])) ↔
      n < 2 ∨ (9 ≤ n ∧
        (encodeHarnessJSON transition.asJSON).length ≤ harnessIdentityLimit ∧
        (∀ last ∈ transitions.getLast?, last.afterGeneration ≤ transition.afterGeneration) ∧
        transitions.length + 1 < 10 ^ 6) := by
  obtain ⟨entries, hopened⟩ := opened_of_readTransitions hread
  have hordered : Named.Ordered entries := by
    unfold opened at hopened
    split at hopened
    · rw [← Option.some.inj hopened]
      exact List.Pairwise.nil
    · rename_i hplace
      rw [← Option.some.inj hopened]
      exact hlisted _ hplace
    · cases hopened
  have hholds := (readTransitions_eq_ok hopened hordered).mp hread
  -- something is written, so that the accepted identity was read
  obtain ⟨current, hcurrent⟩ : ∃ current, currentIdentity store = .ok current := by
    unfold recordCalls at hwrite
    split at hwrite
    · exact absurd (Except.ok.inj hwrite).symm hcalls
    obtain ⟨_, _, hwrite⟩ := bind_eq_ok.mp hwrite
    obtain ⟨current, hcurrent, -⟩ := bind_eq_ok.mp hwrite
    exact ⟨current, hcurrent⟩
  have hvalid : ∀ identity ∈ current, identity.Valid := by
    rintro identity hidentity
    rw [Option.mem_def.mp hidentity] at hcurrent
    exact valid_of_currentIdentity hread hopened hordered hcurrent
  rcases (recordCalls_eq_ok hopened hholds hcurrent hvalid).mp hwrite with
    ⟨hnone, -⟩ | ⟨rfl, hrequired, htransition, -, hprevious⟩
  · exact absurd hnone hcalls
  obtain ⟨hancestry, hdescent⟩ := checks_of_written hread hcurrent hprevious hvalid hholds.descent
  have hrecord : transition.Valid :=
    ⟨htransition, fun identity hidentity => hvalid identity (hprevious ▸ hidentity), hrequired⟩
  have hcrash := @linked_crash store.transitions entries (harnessTemporary suffix)
    (transitionFileName (transitions.length + 1)) (encodeHarnessJSON transition.asJSON)
    hopened hordered
    (entry_harnessTemporary hholds.files suffix) (harnessTemporary_ne suffix _) n
  rcases hcrash with ⟨hn, hleft⟩ | ⟨hn, hleft⟩ | ⟨hlow, hhigh, left, hleft, hstaged⟩ | ⟨hn, hleft⟩
  · rw [hleft]
    exact ⟨fun _ => .inl (by omega), fun _ => ⟨_, hread, .inl rfl⟩⟩
  · rw [hleft]
    exact ⟨fun _ => .inl (by omega), fun _ =>
      ⟨_, (readTransitions_eq_ok rfl hordered).mpr hholds, .inl rfl⟩⟩
  · rw [hleft]
    constructor
    · rintro ⟨after, hafter, -⟩
      exact absurd hafter (readTransitions_temporary hstaged)
    · intro hn
      omega
  · rw [hleft]
    have hput := @Named.ordered_put _ (transitionFileName (transitions.length + 1)) _ hordered
      (.file (encodeHarnessJSON transition.asJSON))
    have hiff := holds_put_iff hholds hordered hrecord hancestry hdescent
    have hreads := fun after => @readTransitions_eq_ok after { store with
      transitions := some (.directory (Named.put (transitionFileName (transitions.length + 1))
        (.file (encodeHarnessJSON transition.asJSON)) entries)) } _ rfl hput
    simp only [hreads]
    rw [hiff]
    constructor
    · exact fun h => .inr ⟨hn, h⟩
    · rintro (hn' | ⟨-, h⟩)
      · omega
      · exact h

end Transition

/-! ### Every write -/

/-- **Crashes while records are written.** For every write of a feature request and of a harness
transition from a store that is read, and for every number of calls made before the crash: what is
left is read as the old or the new records exactly when the temporary file is not there, and, for a
transition that was written completely, when it fits into what the reader reads, does not go back to
an earlier generation and has a number of six digits. -/
theorem recordWrites_crash (store : FeatureRequestStore) (request : FeatureRequest) (replace : Bool)
    (records : HarnessStore) (transition : HarnessGateTransition)
    (transitions : List HarnessGateTransition) (suffix : Bytes) (calls : List Call) (n : ℕ) :
    (Consistent store → writeCalls store.place suffix request replace = .ok calls →
      ((∃ after, readFeatureRequests (performCalls store.place (calls.take n)) = .ok after ∧
        (after = store.requests ∨ after = store.requests.insert request.id request)) ↔
        n < 2 ∨ 6 ≤ n)) ∧
    (Listed records.transitions → readTransitions records = .ok transitions →
      recordCalls records suffix transition = .ok calls → calls ≠ [] →
      ((∃ after, readTransitions
          { records with
            transitions := performCalls records.transitions (calls.take n) } = .ok after ∧
        (after = transitions ∨ after = transitions ++ [transition])) ↔
        n < 2 ∨ (9 ≤ n ∧
          (encodeHarnessJSON transition.asJSON).length ≤ harnessIdentityLimit ∧
          (∀ last ∈ transitions.getLast?, last.afterGeneration ≤ transition.afterGeneration) ∧
          transitions.length + 1 < 10 ^ 6))) :=
  ⟨fun hstore hwrite => featureWrite_crash hstore hwrite n,
    fun hlisted hread hwrite hcalls => transitionWrite_crash hlisted hread hwrite hcalls n⟩

/-- The first feature request of a run. -/
def firstRequest : FeatureRequest :=
  ⟨1, 0, ascii "Network", ascii "A network card", featurePending, []⟩

theorem valid_firstRequest : Valid firstRequest :=
  validateRequest_eq_ok.mp (show validateRequest firstRequest = .ok () by decide +kernel)

/-- The first transition of a run. -/
def firstTransition : HarnessGateTransition := ⟨3, identityWith (ascii "go1.25"), none, true⟩

/-- A crash once the feature request has its name, one while the transition is written, and a
transition that is written to the end. -/
theorem recordWrites_crash_none :
    (∃ after, readFeatureRequests (performCalls none ((renamed (temporaryName 1 [])
        (requestName 1) (encodeFeatureRequest firstRequest)).take 7)) = .ok after ∧
      (after = ∅ ∨ after = Finmap.insert 1 firstRequest ∅)) ∧
    (¬∃ after, readTransitions ⟨none, performCalls none ((linked (harnessTemporary [])
        (transitionFileName 1) (encodeHarnessJSON firstTransition.asJSON)).take 4), []⟩ =
          .ok after ∧ (after = [] ∨ after = [firstTransition])) ∧
    ∃ after, readTransitions ⟨none, performCalls none ((linked (harnessTemporary [])
        (transitionFileName 1) (encodeHarnessJSON firstTransition.asJSON)).take 9), []⟩ =
          .ok after ∧ (after = [] ∨ after = [firstTransition]) := by
  have hstore : Consistent ⟨none, ∅⟩ := ⟨rfl, fun _ h => by cases h⟩
  have hwrite : writeCalls none [] firstRequest false = .ok _ :=
    (writeCalls_eq_ok hstore).mpr ⟨valid_firstRequest, fun _ => Finmap.notMem_empty, rfl⟩
  have hkeeps : Keeps none (newRun none) [] := keeps_newRun (by simp)
  have hvalid : (identityWith (ascii "go1.25")).Valid := by decide +kernel
  have hrecord := (@recordCalls_eq_ok (newRun none) [] [] firstTransition _ _ rfl
    ⟨rfl, rfl, .nil, rfl⟩ hkeeps.current hkeeps.valid []).mpr
      (.inr ⟨rfl, rfl, hvalid, by simp [accepted], rfl⟩)
  have hlisted : Listed (newRun none).transitions := fun _ h => by cases h
  have hboth (calls : List Call) (n : ℕ) := recordWrites_crash ⟨none, ∅⟩ firstRequest false
    (newRun none) firstTransition [] [] calls n
  have hlinked (n : ℕ) := (hboth _ n).2 hlisted hkeeps.read hrecord (by simp [linked])
  refine ⟨((hboth _ 7).1 hstore hwrite).mpr (.inr (by decide)), fun hread => ?_, ?_⟩
  · rcases (hlinked 4).mp hread with hearly | ⟨hlate, -⟩ <;> omega
  · exact (hlinked 9).mpr (.inr ⟨le_rfl, by decide +kernel, by simp, by decide⟩)

/-- **A directory that is refused.** A crash right behind the creation of the temporary file of the
first feature request leaves a directory that the reader does not accept. -/
theorem featureWrite_crash_unreadable :
    ∃ calls, writeCalls none [] firstRequest false = .ok calls ∧
      readFeatureRequests (performCalls none (calls.take 2)) =
        .error (.filename (temporaryName 1 [])) := by
  have hstore : Consistent ⟨none, ∅⟩ := ⟨rfl, fun _ h => by cases h⟩
  refine ⟨_, (writeCalls_eq_ok hstore).mpr ⟨valid_firstRequest, fun _ => Finmap.notMem_empty, rfl⟩,
    ?_⟩
  have hleft : performCalls none ((renamed (temporaryName 1 []) (requestName 1)
      (encodeFeatureRequest firstRequest)).take 2) =
      some (.directory [(temporaryName 1 [], .file [])]) := rfl
  have hname : requestIDFromName (temporaryName 1 []) = none := requestIDFromName_dot _
  have hrecord : readRecord (temporaryName 1 [], .file []) =
      .error (.filename (temporaryName 1 [])) := by
    rw [readRecord, hname]
  have hid : firstRequest.id = 1 := rfl
  rw [hid, hleft, readFeatureRequests, List.foldlM_cons, readInto, hrecord]
  rfl

end Carcer.Store
