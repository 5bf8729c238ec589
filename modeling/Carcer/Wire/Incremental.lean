import Mathlib

/-!
# Incremental scanners

A scanner looks at the front of a buffer and waits for more, takes an event off the buffer, or
stops. When what it decides stays decided as the buffer grows, a stream can be handed to it in any
pieces: the events, what is left over and the stop depend on the stream alone.

## Main definitions

* `Step`: what a scanner does with a buffer
* `Shrinking step`, `Incremental step`: an event takes something off the buffer, and a decision of
  `step` is kept when the buffer grows
* `scan step buffer`: the outcome of repeating `step` until it waits or stops
* `feed step outcome chunk`: the outcome after one more piece of the stream
* `run step act buffer state`: the scan in which each event acts on a state and may stop it

## Main results

* `scan_append`: scanning a longer stream continues the scan of the shorter one
* `foldl_feed`: the outcome of feeding pieces is the scan of their concatenation
* `run_append`: a run continues in the same way
-/

namespace Carcer.Wire

/-- What a scanner does with a buffer: it waits for more, takes an event off the front, or stops
with a reason. -/
inductive Step (ε ρ α : Type)
  | wait
  | emit (event : ε) (rest : List α)
  | stop (reason : ρ) (rest : List α)
  deriving DecidableEq

/-- The outcome of a scan: the events in order, what is left of the buffer, and the reason when the
scanner has stopped. -/
structure Outcome (ε ρ α : Type) where
  events : List ε
  rest : List α
  stop : Option ρ
  deriving DecidableEq

variable {ε ρ α : Type} {step : List α → Step ε ρ α}

namespace Outcome

/-- The outcome with one more event in front. -/
def cons (event : ε) (o : Outcome ε ρ α) : Outcome ε ρ α := { o with events := event :: o.events }

/-- The outcome with more events in front. -/
def after (events : List ε) (o : Outcome ε ρ α) : Outcome ε ρ α :=
  { o with events := events ++ o.events }

end Outcome

/-- An event takes something off the buffer. -/
def Shrinking (step : List α → Step ε ρ α) : Prop :=
  ∀ {b e rest}, step b = .emit e rest → rest.length < b.length

/-- **A decision is kept when the buffer grows**, and an event takes something off the buffer. -/
structure Incremental (step : List α → Step ε ρ α) : Prop where
  shrinking : Shrinking step
  emit_append : ∀ {b e rest} c, step b = .emit e rest → step (b ++ c) = .emit e (rest ++ c)
  stop_append : ∀ {b r rest} c, step b = .stop r rest → step (b ++ c) = .stop r (rest ++ c)

/-- At most `fuel` rounds of a scanner. -/
def scanRounds (step : List α → Step ε ρ α) : ℕ → List α → Outcome ε ρ α
  | 0, b => ⟨[], b, none⟩
  | fuel + 1, b =>
    match step b with
    | .wait => ⟨[], b, none⟩
    | .emit e rest => (scanRounds step fuel rest).cons e
    | .stop r rest => ⟨[], rest, some r⟩

/-- The scanner repeated until it waits or stops. An event takes a part of the buffer, so there are
no more rounds than the buffer is long, and one. -/
def scan (step : List α → Step ε ρ α) (b : List α) : Outcome ε ρ α :=
  scanRounds step (b.length + 1) b

/-- One more piece of the stream: it is appended to what is left, and scanned unless the scanner
has stopped. -/
def feed (step : List α → Step ε ρ α) (o : Outcome ε ρ α) (chunk : List α) : Outcome ε ρ α :=
  match o.stop with
  | some _ => { o with rest := o.rest ++ chunk }
  | none => (scan step (o.rest ++ chunk)).after o.events

theorem scan_wait {b : List α} (hstep : step b = .wait) : scan step b = ⟨[], b, none⟩ := by
  simp [scan, scanRounds, hstep]

theorem scan_stop {b rest : List α} {r : ρ} (hstep : step b = .stop r rest) :
    scan step b = ⟨[], rest, some r⟩ := by
  simp [scan, scanRounds, hstep]

section Shrinking

variable (h : Shrinking step)
include h

/-- Rounds beyond the length of the buffer change nothing. -/
theorem scanRounds_eq {fuel fuel' : ℕ} {b : List α} (hfuel : b.length < fuel)
    (hfuel' : b.length < fuel') : scanRounds step fuel b = scanRounds step fuel' b := by
  induction fuel generalizing fuel' b with
  | zero => omega
  | succ fuel ih =>
    obtain ⟨fuel', rfl⟩ := Nat.exists_eq_add_of_lt hfuel'
    simp only [scanRounds]
    cases hstep : step b with
    | wait | stop r rest => rfl
    | emit e rest =>
      have hlt := h hstep
      simp only
      rw [ih (by omega) (show rest.length < b.length + fuel' by omega)]

theorem scan_emit {b rest : List α} {e : ε} (hstep : step b = .emit e rest) :
    scan step b = (scan step rest).cons e := by
  have hlt := h hstep
  rw [scan, scanRounds, hstep]
  simp only
  rw [scanRounds_eq h hlt (Nat.lt_succ_self _), scan]

end Shrinking

section Incremental

variable (h : Incremental step)
include h

/-- **Scanning continues**: the scan of a longer stream is the scan of the shorter one, fed with
the rest. -/
theorem scan_append (b c : List α) : scan step (b ++ c) = feed step (scan step b) c := by
  induction hlen : b.length using Nat.strongRecOn generalizing b with
  | _ n ih =>
    cases hstep : step b with
    | wait =>
      rw [scan_wait hstep]
      simp [feed, Outcome.after]
    | stop r rest =>
      rw [scan_stop hstep, scan_stop (h.stop_append c hstep)]
      simp [feed]
    | emit e rest =>
      rw [scan_emit h.shrinking hstep, scan_emit h.shrinking (h.emit_append c hstep),
        ih _ (hlen ▸ h.shrinking hstep) rest rfl]
      cases hstop : (scan step rest).stop <;> simp [feed, Outcome.cons, Outcome.after, hstop]

/-- **The pieces do not matter**: feeding the pieces of a stream gives the scan of the stream. -/
theorem foldl_feed (b : List α) (chunks : List (List α)) :
    chunks.foldl (feed step) (scan step b) = scan step (b ++ chunks.flatten) := by
  induction chunks generalizing b with
  | nil => simp
  | cons c cs ih =>
    rw [List.foldl_cons, ← scan_append h, ih, List.flatten_cons, List.append_assoc]

end Incremental

/-! ### Scanning with actions -/

/-- The outcome of a scan whose events act on a state: the state, what is left of the buffer, and
what has stopped it, the scanner or an action. -/
structure Progress (σ ρ φ α : Type) where
  state : σ
  rest : List α
  stop : Option (ρ ⊕ φ)

section Run

variable {σ φ : Type} (step : List α → Step ε ρ α) (act : ε → σ → σ × Option φ)

/-- At most `fuel` rounds of a scanner with actions. -/
def runRounds : ℕ → List α → σ → Progress σ ρ φ α
  | 0, b, s => ⟨s, b, none⟩
  | fuel + 1, b, s =>
    match step b with
    | .wait => ⟨s, b, none⟩
    | .stop r rest => ⟨s, rest, some (.inl r)⟩
    | .emit e rest =>
      match act e s with
      | (s, some f) => ⟨s, rest, some (.inr f)⟩
      | (s, none) => runRounds fuel rest s

/-- The scanner repeated, each event with its action, until it waits or something stops it. -/
def run (b : List α) (s : σ) : Progress σ ρ φ α := runRounds step act (b.length + 1) b s

/-- One more piece of the stream. -/
def Progress.feed (p : Progress σ ρ φ α) (chunk : List α) : Progress σ ρ φ α :=
  match p.stop with
  | some _ => { p with rest := p.rest ++ chunk }
  | none => run step act (p.rest ++ chunk) p.state

variable {step act}

theorem run_wait {b : List α} (hstep : step b = .wait) (s : σ) :
    run step act b s = ⟨s, b, none⟩ := by
  simp [run, runRounds, hstep]

theorem run_stop {b rest : List α} {r : ρ} (hstep : step b = .stop r rest) (s : σ) :
    run step act b s = ⟨s, rest, some (.inl r)⟩ := by
  simp [run, runRounds, hstep]

theorem run_refused {b rest : List α} {e : ε} (hstep : step b = .emit e rest) {s s' : σ} {f : φ}
    (hact : act e s = (s', some f)) : run step act b s = ⟨s', rest, some (.inr f)⟩ := by
  simp [run, runRounds, hstep, hact]

theorem runRounds_eq (h : Shrinking step) {fuel fuel' : ℕ} {b : List α} (hfuel : b.length < fuel)
    (hfuel' : b.length < fuel') (s : σ) :
    runRounds step act fuel b s = runRounds step act fuel' b s := by
  induction fuel generalizing fuel' b s with
  | zero => omega
  | succ fuel ih =>
    obtain ⟨fuel', rfl⟩ := Nat.exists_eq_add_of_lt hfuel'
    simp only [runRounds]
    cases hstep : step b with
    | wait | stop r rest => rfl
    | emit e rest =>
      have hlt := h hstep
      rcases hact : act e s with ⟨s', _ | f⟩
      · simp only [hact]
        exact ih (by omega) (by omega) s'
      · simp only [hact]

theorem run_emit (h : Shrinking step) {b rest : List α} {e : ε} (hstep : step b = .emit e rest)
    {s s' : σ} (hact : act e s = (s', none)) : run step act b s = run step act rest s' := by
  have hlt := h hstep
  rw [run, runRounds, hstep]
  simp only [hact]
  rw [runRounds_eq h hlt (Nat.lt_succ_self _), run]

theorem run_induction (h : Shrinking step) {motive : List α → σ → Progress σ ρ φ α → Prop}
    (wait : ∀ b s, step b = .wait → motive b s ⟨s, b, none⟩)
    (stop : ∀ b s r rest, step b = .stop r rest → motive b s ⟨s, rest, some (.inl r)⟩)
    (refused : ∀ b s e rest s' f, step b = .emit e rest → act e s = (s', some f) →
      motive b s ⟨s', rest, some (.inr f)⟩)
    (emit : ∀ b s e rest s', step b = .emit e rest → act e s = (s', none) →
      motive rest s' (run step act rest s') → motive b s (run step act rest s'))
    (b : List α) (s : σ) : motive b s (run step act b s) := by
  induction hlen : b.length using Nat.strongRecOn generalizing b s with
  | _ n ih =>
    cases hstep : step b with
    | wait =>
      rw [run_wait hstep]
      exact wait b s hstep
    | stop r rest =>
      rw [run_stop hstep]
      exact stop b s r rest hstep
    | emit e rest =>
      rcases hact : act e s with ⟨s', _ | f⟩
      · rw [run_emit h hstep hact]
        exact emit b s e rest s' hstep hact (ih _ (hlen ▸ h hstep) rest s' rfl)
      · rw [run_refused hstep hact]
        exact refused b s e rest s' f hstep hact

/-- **Acting continues**: the run over a longer stream is the run over the shorter one, fed with
the rest. -/
theorem run_append (h : Incremental step) (b c : List α) (s : σ) :
    run step act (b ++ c) s = (run step act b s).feed step act c := by
  refine run_induction h.shrinking
    (motive := fun b s p => run step act (b ++ c) s = p.feed step act c) ?_ ?_ ?_ ?_ b s
  · intro b s _
    simp [Progress.feed]
  · intro b s r rest hstep
    rw [run_stop (h.stop_append c hstep)]
    simp [Progress.feed]
  · intro b s e rest s' f hstep hact
    rw [run_refused (h.emit_append c hstep) hact]
    simp [Progress.feed]
  · intro b s e rest s' hstep hact ih
    rw [run_emit h.shrinking (h.emit_append c hstep) hact, ih]

end Run

end Carcer.Wire
