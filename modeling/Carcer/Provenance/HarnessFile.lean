import Carcer.Provenance.HarnessStore

/-!
# Reading the transitions

A transition is read back from its file, and a directory is read as transitions exactly when its
names are those of the first numbers and each file holds the next transition. The names are read in
the order of their bytes, so that this needs the numbers to have six digits at most.

## Main definitions

* `Recorded`: the files of a directory hold a list of transitions
* `Holds`: a directory is read as a list of transitions

## Main results

* `decodeHarnessTransition_encoded`: a transition is read back
* `readTransitions_eq_ok`: what a directory is read as
* `Holds.put`: a directory with one more transition
-/

namespace Carcer.Provenance

open Carcer.Wire Carcer.Json Carcer.Disk List

/-! ### The file of a transition -/

/-- A transition that is recorded. -/
structure HarnessGateTransition.Valid (transition : HarnessGateTransition) : Prop where
  current : transition.current.Valid
  previous : ∀ previous ∈ transition.previous, previous.Valid
  required : transition.requiresRecord = true

variable {transition : HarnessGateTransition} {transitions : List HarnessGateTransition}
  {store : HarnessStore} {entries : Directory} {run : Option Entry}

theorem HarnessGateTransition.Valid.quotes (h : transition.Valid) :
    transition.asJSON.Printable (Quotes (escape false)) ∧
      transition.asJSON.depth ≤ maxNestingDepth := by
  have hprevious : ((transition.previous.map HarnessIdentity.asJSON).getD .null).Printable
      (Quotes (escape false)) ∧
      ((transition.previous.map HarnessIdentity.asJSON).getD .null).depth ≤ 2 := by
    cases hidentity : transition.previous with
    | none => exact ⟨trivial, by decide⟩
    | some previous =>
      have hvalid := h.previous previous hidentity
      exact ⟨hvalid.quotes, hvalid.printable.2⟩
  constructor
  · rw [HarnessGateTransition.asJSON, Value.Printable, membersPrintable_iff]
    simp only [transitionMembers, forall_mem_cons, not_mem_nil, false_implies,
      implies_true, and_true]
    exact ⟨⟨quotes_escape false (by decide +kernel), isNumber_decimal _⟩,
      ⟨quotes_escape false (by decide +kernel), h.current.quotes⟩,
      ⟨quotes_escape false (by decide +kernel), hprevious.1⟩,
      ⟨quotes_escape false (by decide +kernel), isNumber_decimal _⟩,
      quotes_escape false (by decide +kernel), quotes_escape false (by decide +kernel)⟩
  · have hmembers : membersDepth (transitionMembers transition) ≤ 2 := by
      rw [membersDepth_le]
      simp only [transitionMembers, forall_mem_cons, not_mem_nil, false_implies,
        implies_true, and_true]
      exact ⟨Nat.zero_le _, h.current.printable.2, hprevious.2, Nat.zero_le _, Nat.zero_le _⟩
    exact (Nat.succ_le_succ hmembers).trans (by decide)

theorem unmarshalUint_print (n : UInt64) (d : ℕ) :
    unmarshalUint (print (escape false) indented d (.number (decimal n.toNat))) = some n := by
  have hnumber : (Value.number (decimal n.toNat)).Printable (Quotes (escape false)) :=
    isNumber_decimal _
  rw [unmarshalUint, parse_print hnumber (Nat.zero_le _)]
  exact intoUint64_number n 0

theorem unmarshalString_print {text : Bytes} (h : utf8Valid text = true) (d : ℕ) :
    unmarshalString (print (escape false) indented d (.string text)) = some text := by
  have hquotes : (Value.string text).Printable (Quotes (escape false)) := quotes_escape false h
  rw [unmarshalString, parse_print hquotes (Nat.zero_le _)]
  rfl

theorem print_asJSON_ne_null (identity : HarnessIdentity) (d : ℕ) :
    print (escape false) indented d identity.asJSON ≠ ascii "null" := by
  have hmembers : (structMembers identityParts identity).isEmpty = false := rfl
  rw [HarnessIdentity.asJSON, print, hmembers]
  intro h
  have hhead := congrArg List.head? h
  rw [ascii_words.1] at hhead
  exact absurd (Option.some.inj hhead) (by decide)

theorem decodePrevious_print {previous} (h : ∀ identity ∈ previous, identity.Valid) (d : ℕ)
    (hlimit : (print (escape false) indented d
      ((previous.map HarnessIdentity.asJSON).getD .null)).length ≤ harnessIdentityLimit) :
    decodePrevious (print (escape false) indented d
      ((previous.map HarnessIdentity.asJSON).getD .null)) = .ok previous := by
  cases previous with
  | none => rfl
  | some identity =>
    have hparse := @parseHarnessIdentity_print identity (h identity rfl) d [] rfl
      (by rwa [append_nil])
    rw [append_nil] at hparse
    have htext : (Option.map HarnessIdentity.asJSON (some identity)).getD .null =
        identity.asJSON := rfl
    rw [decodePrevious, htext, if_neg (print_asJSON_ne_null identity d), hparse]
    rfl

/-- **A transition is read back** when its text is short enough. -/
theorem decodeHarnessTransition_encoded (h : transition.Valid)
    (hlimit : (encodeHarnessJSON transition.asJSON).length ≤ harnessIdentityLimit) :
    decodeHarnessTransition (encodeHarnessJSON transition.asJSON) = .ok transition := by
  obtain ⟨hprintable, hdepth⟩ := h.quotes
  have hnames : transitionNames.Nodup := by decide +kernel
  have hnodup : ((transitionMembers transition).map Prod.fst).Nodup := hnames
  have hobject : rawObject (encodeHarnessJSON transition.asJSON) =
      some ((transitionMembers transition).map fun m =>
        (m.1, print (escape false) indented 1 m.2), [0x0a]) :=
    rawObject_print hprintable hdepth 0 [0x0a]
  have hexact : hasExactHarnessFields ((transitionMembers transition).map fun m =>
      (m.1, print (escape false) indented 1 m.2)) transitionNames = true :=
    hasExactMembers_of_perm hnames (List.Perm.refl _)
  have hfield : ∀ {name : String} {v : Value}, (ascii name, v) ∈ transitionMembers transition →
      rawField ((transitionMembers transition).map fun m =>
        (m.1, print (escape false) indented 1 m.2)) name = print (escape false) indented 1 v :=
    fun h => rawField_map hnodup h 1
  -- the texts of the identities are shorter than the whole text
  have hshort : ∀ {name : Bytes} {v : Value}, (name, v) ∈ transitionMembers transition →
      (print (escape false) indented 1 v).length ≤ harnessIdentityLimit := by
    intro name v hmem
    refine le_trans (length_print_of_mem (escape false) indented hmem 0) (le_trans ?_ hlimit)
    rw [encodeHarnessJSON, length_append]
    exact Nat.le_add_right _ _
  have hcurrent : (ascii "current", transition.current.asJSON) ∈ transitionMembers transition := by
    simp [transitionMembers]
  have hprevious : (ascii "previous", (transition.previous.map HarnessIdentity.asJSON).getD .null) ∈
      transitionMembers transition := by
    simp [transitionMembers]
  have hparse := @parseHarnessIdentity_print _ h.current 1 [] rfl
    (by rw [append_nil]; exact hshort hcurrent)
  rw [append_nil] at hparse
  have hafter : (ascii "after_generation", .number (decimal transition.afterGeneration.toNat)) ∈
      transitionMembers transition := by
    simp [transitionMembers]
  have hversion : (ascii "schema_version",
      .number (decimal harnessIdentitySchemaVersion.toNat)) ∈ transitionMembers transition := by
    simp [transitionMembers]
  have hkind : (ascii "transition", .string transitionKind) ∈ transitionMembers transition := by
    simp [transitionMembers]
  have hgeneration : transitionGeneration ((transitionMembers transition).map fun m =>
      (m.1, print (escape false) indented 1 m.2)) = .ok transition.afterGeneration := by
    rw [transitionGeneration, hfield hversion, unmarshalUint_print, hfield hafter,
      unmarshalUint_print, hfield hkind, unmarshalString_print (by decide +kernel)]
    rfl
  rw [decodeHarnessTransition, hobject]
  simp only [hexact, hgeneration, hfield hcurrent, hfield hprevious, hparse,
    decodePrevious_print h.previous 1 (hshort hprevious), failIf, bind, Except.bind, pure,
    Except.pure, Bool.true_eq_false, if_false]
  rw [← h.required]

/-! ### The directory -/

/-- The files of a directory hold a list of transitions, each behind the one before it. -/
inductive Recorded (entries : Directory) : List HarnessGateTransition → Prop
  | nil : Recorded entries []
  | snoc {transitions : List HarnessGateTransition} {transition : HarnessGateTransition}
      {content : Bytes} (rest : Recorded entries transitions)
      (file : entries.entry (transitionFileName (transitions.length + 1)) = some (.file content))
      (limit : content.length ≤ harnessIdentityLimit)
      (decoded : decodeHarnessTransition content = .ok transition)
      (prior : checkPrior transitions.getLast? transition = .ok ()) :
      Recorded entries (transitions ++ [transition])

/-- The names of the first transitions. -/
def transitionFiles (n : ℕ) : List Bytes := (List.range n).map fun i => transitionFileName (i + 1)

theorem transitionFiles_succ (n : ℕ) :
    transitionFiles (n + 1) = transitionFiles n ++ [transitionFileName (n + 1)] := by
  simp [transitionFiles, range_succ]

theorem readHarnessRegular_eq_ok {entry : Option Entry} {content : Bytes} :
    readHarnessRegular entry = .ok content ↔
      entry = some (.file content) ∧ content.length ≤ harnessIdentityLimit := by
  rw [readHarnessRegular, mapError_eq_ok, readRegular_eq_ok]

theorem readNext_eq_ok {name : Bytes} {next : List HarnessGateTransition} :
    readNext entries transitions name = .ok next ↔
      name = transitionFileName (transitions.length + 1) ∧ ∃ content transition,
        entries.entry name = some (.file content) ∧ content.length ≤ harnessIdentityLimit ∧
        decodeHarnessTransition content = .ok transition ∧
        checkPrior transitions.getLast? transition = .ok () ∧
        next = transitions ++ [transition] := by
  simp only [readNext, bind_eq_ok, failIf_eq_ok, readHarnessRegular_eq_ok, not_not, pure,
    Except.pure, Except.ok.injEq]
  constructor
  · rintro ⟨_, hname, content, ⟨hfile, hlimit⟩, transition, hdecode, _, hprior, rfl⟩
    exact ⟨hname, content, transition, hfile, hlimit, hdecode, hprior, rfl⟩
  · rintro ⟨hname, content, transition, hfile, hlimit, hdecode, hprior, rfl⟩
    exact ⟨(), hname, content, ⟨hfile, hlimit⟩, transition, hdecode, (), hprior, rfl⟩

theorem foldlM_readNext {names : List Bytes} :
    names.foldlM (readNext entries) [] = .ok transitions ↔
      names = transitionFiles transitions.length ∧ Recorded entries transitions := by
  induction names using List.reverseRecOn generalizing transitions with
  | nil =>
    constructor
    · intro h
      cases h
      exact ⟨rfl, .nil⟩
    · rintro ⟨hnames, -⟩
      have hlength := congrArg List.length hnames
      rw [transitionFiles, length_map, length_range] at hlength
      rw [eq_nil_of_length_eq_zero hlength.symm]
      rfl
  | append_singleton names name ih =>
    simp only [foldlM_append, foldlM_cons, foldlM_nil, bind_eq_ok, pure,
      Except.pure, Except.ok.injEq, ih, readNext_eq_ok]
    constructor
    · rintro ⟨before, ⟨rfl, hbefore⟩, _, ⟨rfl, content, transition, hfile, hlimit, hdecode, hprior,
        rfl⟩, rfl⟩
      refine ⟨?_, .snoc hbefore hfile hlimit hdecode hprior⟩
      rw [length_append, length_singleton, transitionFiles_succ]
    · rintro ⟨hnames, hrecorded⟩
      cases hrecorded with
      | nil => simp [transitionFiles] at hnames
      | @snoc before transition content hbefore hfile hlimit hdecode hprior =>
        rw [length_append, length_singleton, transitionFiles_succ] at hnames
        obtain ⟨rfl, hname⟩ := List.append_inj' hnames rfl
        obtain rfl := singleton_inj.mp hname
        exact ⟨before, ⟨rfl, hbefore⟩, _, ⟨rfl, content, transition, hfile, hlimit, hdecode, hprior,
          rfl⟩, rfl⟩

/-- A directory is read as a list of transitions. -/
structure Holds (run : Option Entry) (entries : Directory)
    (transitions : List HarnessGateTransition) : Prop where
  files : entries.all isTransitionEntry = true
  names : Named.names entries = transitionFiles transitions.length
  recorded : Recorded entries transitions
  descent : checkDescent run transitions = .ok ()

theorem mergeSort_names (hordered : Named.Ordered entries) :
    (Named.names entries).mergeSort (fun a b => decide (a ≤ b)) = Named.names entries := by
  refine mergeSort_of_pairwise (hordered.imp fun hlt => ?_)
  exact decide_eq_true (List.not_lt.mp (List.lt_asymm hlt))

/-- **What a directory is read as.** -/
theorem readTransitions_eq_ok (hopened : opened store.transitions = some entries)
    (hordered : Named.Ordered entries) :
    readTransitions store = .ok transitions ↔ Holds store.run entries transitions := by
  have hdirectory : readTransitions { store with transitions := some (.directory entries) } =
      .ok transitions ↔ Holds store.run entries transitions := by
    simp only [readTransitions, mergeSort_names hordered, bind_eq_ok, failIf_eq_ok,
      foldlM_readNext, pure, Except.pure, Except.ok.injEq, Bool.not_eq_false]
    constructor
    · rintro ⟨_, hfiles, _, ⟨hnames, hrecorded⟩, _, hdescent, rfl⟩
      exact ⟨hfiles, hnames, hrecorded, hdescent⟩
    · rintro ⟨hfiles, hnames, hrecorded, hdescent⟩
      exact ⟨(), hfiles, transitions, ⟨hnames, hrecorded⟩, (), hdescent, rfl⟩
  rw [← hdirectory]
  -- no directory is read as an empty one
  unfold opened at hopened
  split at hopened
  · rename_i hplace
    cases hopened
    unfold readTransitions
    simp only [hplace, mergeSort_names hordered]
    rfl
  · rename_i hplace
    cases hopened
    unfold readTransitions
    rw [hplace]
  · cases hopened

theorem opened_of_readTransitions (h : readTransitions store = .ok transitions) :
    ∃ entries, opened store.transitions = some entries := by
  unfold readTransitions at h
  split at h
  · rename_i hplace
    exact ⟨[], by rw [hplace]; rfl⟩
  · rename_i entries hplace
    exact ⟨entries, by rw [hplace]; rfl⟩
  · cases h

/-! ### One more transition -/

theorem transitionFileName_injective : Function.Injective transitionFileName :=
  numbered_injective _ _ _

/-- The names of the transitions are ordered as long as their numbers have six digits. -/
theorem transitionFiles_ordered {n : ℕ} : (transitionFiles n).Pairwise (· < ·) ↔ n < 10 ^ 6 := by
  constructor
  · intro h
    by_contra hn
    rw [transitionFiles, pairwise_map] at h
    have hlt := pairwise_iff_getElem.mp h 999998 999999 (by simp; omega) (by simp; omega)
      (by decide)
    simp only [getElem_range] at hlt
    exact absurd hlt (by decide +kernel)
  · intro hn
    rw [transitionFiles, pairwise_map]
    refine pairwise_lt_range.imp_of_mem fun hi hj hij => ?_
    have hj := mem_range.mp hj
    exact numbered_lt _ _ (by decide) (Nat.add_lt_add_right hij 1) (by omega)

theorem Recorded.put (h : Recorded entries transitions) {n : ℕ} (hn : transitions.length < n)
    (entry : Entry) : Recorded (Named.put (transitionFileName n) entry entries) transitions := by
  induction h with
  | nil => exact .nil
  | @snoc before transition content hbefore hfile hlimit hdecode hprior ih =>
    rw [length_append, length_singleton] at hn
    have hne : transitionFileName (before.length + 1) ≠ transitionFileName n := fun heq =>
      absurd (transitionFileName_injective heq) (by omega)
    refine .snoc (ih (by omega)) ?_ hlimit hdecode hprior
    rw [Named.entry_put_of_ne hne]
    exact hfile

theorem isTransitionEntry_file (n : ℕ) (content : Bytes) :
    isTransitionEntry (transitionFileName n, .file content) = true :=
  decide_eq_true ⟨rfl, ⟨_, (append_assoc ..).symm⟩, ⟨_, rfl⟩⟩

/-- **A directory with one more transition.** -/
theorem Holds.put (h : Holds run entries transitions) (htransition : transition.Valid)
    (hlimit : (encodeHarnessJSON transition.asJSON).length ≤ harnessIdentityLimit)
    (hprior : checkPrior transitions.getLast? transition = .ok ())
    (hdescent : checkDescent run (transitions ++ [transition]) = .ok ())
    (hcount : transitions.length + 1 < 10 ^ 6) :
    Holds run (Named.put (transitionFileName (transitions.length + 1))
      (.file (encodeHarnessJSON transition.asJSON)) entries) (transitions ++ [transition]) := by
  have hput : Named.put (transitionFileName (transitions.length + 1))
      (.file (encodeHarnessJSON transition.asJSON)) entries =
      entries ++ [(transitionFileName (transitions.length + 1),
        .file (encodeHarnessJSON transition.asJSON))] := by
    refine Named.put_of_lt (fun other hother => ?_) _
    have hordered := transitionFiles_ordered.mpr hcount
    rw [transitionFiles_succ, pairwise_append] at hordered
    exact hordered.2.2 other (h.names ▸ hother) _ (mem_singleton_self _)
  constructor
  · rw [hput, all_append, h.files]
    simp [isTransitionEntry_file]
  · rw [hput, length_append, length_singleton, transitionFiles_succ, ← h.names]
    simp [Named.names]
  · exact .snoc (h.recorded.put (Nat.lt_succ_self _) _) (Named.entry_put _ _ _) hlimit
      (decodeHarnessTransition_encoded htransition hlimit) hprior
  · exact hdescent

end Carcer.Provenance
