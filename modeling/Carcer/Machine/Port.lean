import Carcer.Machine.Checked

/-!
# Programs on a port

A program on a port takes bytes off its input, puts bytes on its output and changes a state of its
own. It waits for ever at the end of the input, and it may stop on its own; both keep what was
written before.

## Main definitions

* `Port σ`: the state of the program, the input that is left and the output so far
* `PortM σ α`: programs on a port
* `readByte`, `readBytes`, `discardBytes`, `forwardBytes`: taking bytes off the input
* `emit`, `checked`, `halt`: writing, computing and stopping
* `Ends x s consumed emitted result s'`: the program takes exactly `consumed` off the input, puts
  exactly `emitted` on the output, and ends with the result; `Runs` and `Stops` are the two cases

## Main results

* `Ends.bind`, `Ends.stops_bind`: the rules of sequencing
* `runs_readBytes`, `runs_discardBytes`, `runs_forwardBytes`: the rules of the loops on the input
-/

namespace Carcer.Machine

open List

variable {σ α β : Type}

/-- Why a program on a port does not return. -/
inductive Stop
  /-- It met a fault. -/
  | fault (fault : Fault)
  /-- It waits for a byte at the end of the input. -/
  | waiting
  /-- It stopped on its own. -/
  | halted
  deriving DecidableEq, Repr

/-- The state of a program, the input that is left and the output so far. -/
structure Port (σ : Type) where
  state : σ
  input : List UInt8
  output : List UInt8

/-- A program on a port. -/
abbrev PortM (σ : Type) := EStateM Stop (Port σ)

/-- The next byte of the input. -/
def readByte : PortM σ UInt8 := fun port =>
  match port.input with
  | [] => .error .waiting port
  | byte :: rest => .ok byte { port with input := rest }

/-- The next bytes of the input, one after the other. -/
def readBytes : ℕ → PortM σ (List UInt8)
  | 0 => pure []
  | count + 1 => do
    let byte ← readByte
    let bytes ← readBytes count
    return byte :: bytes

/-- The next bytes of the input, dropped one after the other. -/
def discardBytes : ℕ → PortM σ Unit
  | 0 => pure ()
  | count + 1 => do
    let _ ← readByte
    discardBytes count

/-- A writer, given the output so far. -/
def emit (write : List UInt8 → Checked (List UInt8)) : PortM σ Unit := fun port =>
  match write port.output with
  | .ok output => .ok () { port with output := output }
  | .error fault => .error (.fault fault) port

/-- The next bytes of the input, written to the output one after the other. -/
def forwardBytes : ℕ → PortM σ Unit
  | 0 => pure ()
  | count + 1 => do
    let byte ← readByte
    emit fun output => .ok (output ++ [byte])
    forwardBytes count

/-- A computation that does not use the port. -/
def checked (c : Checked α) : PortM σ α := fun port =>
  match c with
  | .ok a => .ok a port
  | .error fault => .error (.fault fault) port

def halt : PortM σ α := fun port => .error .halted port

/-- The state of the program. -/
def getState : PortM σ σ := fun port => .ok port.state port

/-- The state of the program is replaced. -/
def setState (s : σ) : PortM σ Unit := fun port => .ok () { port with state := s }

/-! ### What a program takes and writes -/

/-- The end of a program: with a value, or stopped. -/
def finish (result : Except Stop α) (port : Port σ) : EStateM.Result Stop (Port σ) α :=
  match result with
  | .ok a => .ok a port
  | .error reason => .error reason port

/-- From the state `s`, the program takes exactly `consumed` off the input, puts exactly `emitted`
on the output and ends with `result` in the state `s'`. -/
def Ends (x : PortM σ α) (s : σ) (consumed emitted : List UInt8) (result : Except Stop α) (s' : σ) :
    Prop :=
  ∀ input output,
    x ⟨s, consumed ++ input, output⟩ = finish result ⟨s', input, output ++ emitted⟩

abbrev Runs (x : PortM σ α) (s : σ) (consumed emitted : List UInt8) (a : α) (s' : σ) : Prop :=
  Ends x s consumed emitted (.ok a) s'

abbrev Stops (x : PortM σ α) (s : σ) (consumed emitted : List UInt8) (reason : Stop) (s' : σ) :
    Prop :=
  Ends x s consumed emitted (.error reason) s'

section Rules

variable {s s' s'' : σ} {consumed consumed' emitted emitted' : List UInt8} {a : α}
  {result : Except Stop β} {x : PortM σ α} {f : α → PortM σ β} {reason : Stop}

theorem runs_pure (a : α) (s : σ) : Runs (pure a) s [] [] a s := by
  intro input output
  rw [nil_append, append_nil]
  rfl

/-- **The rule of sequencing**: what is taken and what is written add up. -/
theorem Ends.bind (hx : Runs x s consumed emitted a s')
    (hf : Ends (f a) s' consumed' emitted' result s'') :
    Ends (x >>= f) s (consumed ++ consumed') (emitted ++ emitted') result s'' := by
  intro input output
  have hfirst := hx (consumed' ++ input) output
  have hsecond := hf input (output ++ emitted)
  rw [append_assoc, ← append_assoc output, ← hsecond]
  change EStateM.bind x f _ = _
  rw [EStateM.bind, hfirst]
  rfl

theorem Ends.bind_read (hx : Runs x s consumed [] a s')
    (hf : Ends (f a) s' consumed' emitted result s'') :
    Ends (x >>= f) s (consumed ++ consumed') emitted result s'' :=
  hx.bind hf

theorem Ends.bind_last_read (hx : Runs x s consumed [] a s')
    (hf : Ends (f a) s' [] emitted result s'') : Ends (x >>= f) s consumed emitted result s'' := by
  have hrun := hx.bind hf
  rwa [append_nil] at hrun

theorem Ends.bind_write (hx : Runs x s [] emitted a s')
    (hf : Ends (f a) s' consumed emitted' result s'') :
    Ends (x >>= f) s consumed (emitted ++ emitted') result s'' :=
  hx.bind hf

theorem Ends.bind_last_write (hx : Runs x s [] emitted a s')
    (hf : Ends (f a) s' consumed [] result s'') : Ends (x >>= f) s consumed emitted result s'' := by
  have hrun := hx.bind hf
  rwa [append_nil] at hrun

theorem Ends.bind_quiet (hx : Runs x s [] [] a s')
    (hf : Ends (f a) s' consumed emitted result s'') :
    Ends (x >>= f) s consumed emitted result s'' :=
  hx.bind hf

/-- A program that stops stops what it is a part of. -/
theorem Ends.stops_bind (hx : Stops x s consumed emitted reason s') :
    Stops (x >>= f) s consumed emitted reason s' := by
  intro input output
  change EStateM.bind x f _ = _
  rw [EStateM.bind, hx input output]
  rfl

theorem bind_eq_error {port port' : Port σ} (h : x port = .error reason port') :
    (x >>= f) port = .error reason port' := by
  change EStateM.bind x f port = _
  rw [EStateM.bind, h]

theorem stops_halt (s : σ) : Stops (halt : PortM σ α) s [] [] .halted s := by
  intro input output
  rw [nil_append, append_nil]
  rfl

theorem checked_ok_bind (a : α) (f : α → PortM σ β) : (checked (.ok a) >>= f) = f a := rfl

theorem runs_getState (s : σ) : Runs getState s [] [] s s := runs_pure s s

theorem runs_setState (s s' : σ) : Runs (setState s') s [] [] () s' := by
  intro input output
  rw [nil_append, append_nil]
  rfl

theorem runs_readByte (byte : UInt8) (s : σ) : Runs readByte s [byte] [] byte s := by
  intro input output
  rw [append_nil]
  rfl

theorem runs_readBytes {count : ℕ} {bytes : List UInt8} (h : bytes.length = count) (s : σ) :
    Runs (readBytes count) s bytes [] bytes s := by
  induction count generalizing bytes with
  | zero =>
    obtain rfl := eq_nil_of_length_eq_zero h
    exact runs_pure _ s
  | succ count ih =>
    match bytes with
    | byte :: bytes =>
      have hrest := (ih (Nat.succ.inj h)).bind (f := fun bytes => pure (byte :: bytes))
        (runs_pure (byte :: bytes) s)
      rw [append_nil] at hrest
      exact (runs_readByte byte s).bind_read hrest

theorem runs_discardBytes {count : ℕ} {bytes : List UInt8} (h : bytes.length = count) (s : σ) :
    Runs (discardBytes count) s bytes [] () s := by
  induction count generalizing bytes with
  | zero =>
    obtain rfl := eq_nil_of_length_eq_zero h
    exact runs_pure _ s
  | succ count ih =>
    match bytes with
    | byte :: bytes => exact (runs_readByte byte s).bind (ih (Nat.succ.inj h))

theorem runs_emit {write : List UInt8 → Checked (List UInt8)}
    (h : ∀ output, write output = .ok (output ++ emitted)) (s : σ) :
    Runs (emit write) s [] emitted () s := by
  intro input output
  rw [nil_append, emit]
  simp only
  rw [h output]
  rfl

theorem runs_forwardBytes {count : ℕ} {bytes : List UInt8} (h : bytes.length = count) (s : σ) :
    Runs (forwardBytes count) s bytes bytes () s := by
  induction count generalizing bytes with
  | zero =>
    obtain rfl := eq_nil_of_length_eq_zero h
    exact runs_pure _ s
  | succ count ih =>
    match bytes with
    | byte :: bytes =>
      have hwrite : Runs (emit fun output => .ok (output ++ [byte])) s [] [byte] () s :=
        runs_emit (fun _ => rfl) s
      exact (runs_readByte byte s).bind (hwrite.bind (ih (Nat.succ.inj h)))

end Rules

end Carcer.Machine
