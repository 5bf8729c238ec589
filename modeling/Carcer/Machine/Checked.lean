import Mathlib

/-!
# Checked machine computations

A C program indexes arrays of a fixed size and computes in words of a fixed width. A checked
computation follows it and stops at the first fault: an index outside its array, or an operation
whose result does not fit the word. A computation that returns has met no fault, so on it the
checked operations are those of the machine.

## Main definitions

* `Checked α`: computations that return a value or stop at a `Fault`
* `Returns c P`: the computation `c` meets no fault, and its value satisfies `P`
* `addU32`, `subU32`, `mulU32`: the operations of `uint32_t`
* `FixedArray α n`: arrays of `n` cells, with checked `read` and `write`
* `forRange`, `forDown`, `scanRange`, `allRange`: counted loops, upwards, downwards, with an early
  exit, and with the exit at a failed check
* `Points source bytes`: the pointer `source` points to `bytes`

## Main results

* `Returns.bind`: the rule of sequencing
* `forRange_returns`, `forDown_returns`, `scanRange_returns`, `allRange_returns`: the rules of the
  loops, from an invariant
* `forRange_append`: a loop that appends to its output
* `copyBytes_returns`: the effect of a byte copy
-/

namespace Carcer.Machine

open List

variable {α β σ ρ : Type} {n : ℕ} {P : α → Prop}

/-- What a checked computation can stop at. -/
inductive Fault
  /-- An index outside an array of `size` cells. -/
  | indexOutOfRange (index size : ℕ)
  /-- A `uint32_t` operation whose result does not fit the word. -/
  | wordOverflow
  deriving DecidableEq, Repr

/-- A computation that returns a value or stops at a fault. -/
abbrev Checked := Except Fault

/-- **Total correctness**: the computation meets no fault, and its value satisfies `P`. -/
def Returns (c : Checked α) (P : α → Prop) : Prop := ∃ a, c = .ok a ∧ P a

@[simp] theorem ok_bind {ε : Type} (a : α) (f : α → Except ε β) :
    ((Except.ok a : Except ε α) >>= f) = f a := rfl

@[simp] theorem returns_ok {a : α} : Returns (.ok a) P ↔ P a := by
  simp [Returns]

@[simp] theorem returns_pure {a : α} : Returns (pure a) P ↔ P a :=
  returns_ok

variable {c : Checked α} {a b : ℕ} {body : ℕ → σ → Checked σ} {I : ℕ → σ → Prop} {s : σ} {lo hi : ℕ}

theorem Returns.bind {f : α → Checked β} {Q : β → Prop}
    (hc : Returns c P) (hf : ∀ a, P a → Returns (f a) Q) : Returns (c >>= f) Q := by
  obtain ⟨a, rfl, ha⟩ := hc
  exact hf a ha

theorem Returns.mono {P Q : α → Prop} (hc : Returns c P) (h : ∀ a, P a → Q a) : Returns c Q := by
  obtain ⟨a, rfl, ha⟩ := hc
  exact ⟨a, rfl, h a ha⟩

theorem Returns.of_eq (hc : Returns c P) {a : α} (h : c = .ok a) : P a := by
  rwa [h, returns_ok] at hc

/-! ### Words -/

/-- `a + b` in `uint32_t`. -/
def addU32 (a b : ℕ) : Checked ℕ :=
  if a + b < 2 ^ 32 then .ok (a + b) else .error .wordOverflow

/-- `a - b` in `uint32_t`. -/
def subU32 (a b : ℕ) : Checked ℕ :=
  if b ≤ a then .ok (a - b) else .error .wordOverflow

/-- `a * b` in `uint32_t`. -/
def mulU32 (a b : ℕ) : Checked ℕ :=
  if a * b < 2 ^ 32 then .ok (a * b) else .error .wordOverflow

theorem addU32_eq (h : a + b < 2 ^ 32) : addU32 a b = .ok (a + b) := if_pos h

theorem subU32_eq (h : b ≤ a) : subU32 a b = .ok (a - b) := if_pos h

theorem mulU32_eq (h : a * b < 2 ^ 32) : mulU32 a b = .ok (a * b) := if_pos h

/-! ### Arrays -/

/-- An array of `n` cells. -/
structure FixedArray (α : Type) (n : ℕ) where
  cell : Fin n → α

namespace FixedArray

/-- The array whose cells all hold `a`. -/
def fill (n : ℕ) (a : α) : FixedArray α n := ⟨fun _ => a⟩

variable [Inhabited α] {i : ℕ}

/-- The cell at `i`, and a default outside the array. -/
def get (a : FixedArray α n) (i : ℕ) : α := if h : i < n then a.cell ⟨i, h⟩ else default

/-- The array with the cell at `i` replaced. -/
def set (a : FixedArray α n) (i : ℕ) (v : α) : FixedArray α n :=
  ⟨fun j => if j = i then v else a.cell j⟩

/-- The checked read of the cell at `i`. -/
def read (a : FixedArray α n) (i : ℕ) : Checked α :=
  if i < n then .ok (a.get i) else .error (.indexOutOfRange i n)

/-- The checked write of the cell at `i`. -/
def write (a : FixedArray α n) (i : ℕ) (v : α) : Checked (FixedArray α n) :=
  if i < n then .ok (a.set i v) else .error (.indexOutOfRange i n)

theorem get_set (a : FixedArray α n) (hi : i < n) (v : α) (j : ℕ) :
    (a.set i v).get j = if j = i then v else a.get j := by
  by_cases hj : j < n
  · simp [get, set, hj]
  · have hne : j ≠ i := by omega
    simp [get, hj, hne]

theorem read_eq (a : FixedArray α n) (hi : i < n) : a.read i = .ok (a.get i) :=
  if_pos hi

omit [Inhabited α] in
theorem write_eq (a : FixedArray α n) (hi : i < n) (v : α) : a.write i v = .ok (a.set i v) :=
  if_pos hi

end FixedArray

/-- The checked read of a caller's buffer. -/
def readList (l : List α) (i : ℕ) : Checked α :=
  match l[i]? with
  | some a => .ok a
  | none => .error (.indexOutOfRange i l.length)

theorem readList_eq (l : List α) {i : ℕ} (hi : i < l.length) : readList l i = .ok l[i] := by
  simp [readList, hi]

/-! ### Loops -/

/-- `count` rounds of a loop body, from the index `i` upwards. -/
def loopUp (body : ℕ → σ → Checked σ) : (count i : ℕ) → σ → Checked σ
  | 0, _, s => .ok s
  | count + 1, i, s => body i s >>= loopUp body count (i + 1)

/-- `for (index = lo; index < hi; ++index)`. -/
def forRange (lo hi : ℕ) (body : ℕ → σ → Checked σ) (s : σ) : Checked σ :=
  loopUp body (hi - lo) lo s

/-- `count` rounds of a loop body, from the index `i` downwards. -/
def loopDown (body : ℕ → σ → Checked σ) : (count i : ℕ) → σ → Checked σ
  | 0, _, s => .ok s
  | count + 1, i, s => body i s >>= loopDown body count (i - 1)

/-- `for (index = hi; index > lo; --index)`. -/
def forDown (hi lo : ℕ) (body : ℕ → σ → Checked σ) (s : σ) : Checked σ :=
  loopDown body (hi - lo) hi s

/-- How one round of a loop ends: with the next round, or with the exit from the loop. -/
inductive Round (σ ρ : Type)
  | next (s : σ)
  | stop (r : ρ)
  deriving DecidableEq, Repr

/-- `count` rounds of a loop body that may leave the loop, from the index `i` upwards. -/
def loopScan (body : ℕ → σ → Checked (Round σ ρ)) : (count i : ℕ) → σ → Checked (Round σ ρ)
  | 0, _, s => .ok (.next s)
  | count + 1, i, s => do
    match ← body i s with
    | .next s' => loopScan body count (i + 1) s'
    | .stop r => .ok (.stop r)

/-- `for (index = lo; index < hi; ++index)` with a body that may leave the loop. -/
def scanRange (lo hi : ℕ) (body : ℕ → σ → Checked (Round σ ρ)) (s : σ) : Checked (Round σ ρ) :=
  loopScan body (hi - lo) lo s

theorem loopUp_returns (count : ℕ) {i : ℕ} (h0 : I i s)
    (hstep : ∀ j s, i ≤ j → j < i + count → I j s → Returns (body j s) (I (j + 1))) :
    Returns (loopUp body count i s) (I (i + count)) := by
  induction count generalizing i s with
  | zero => exact returns_ok.mpr h0
  | succ count ih =>
    refine (hstep i s le_rfl (by omega) h0).bind fun s' hs' => ?_
    have := ih hs' fun j s hj hj' => hstep j s (by omega) (by omega)
    rwa [show i + 1 + count = i + (count + 1) by omega] at this

/-- **The rule of the upward loop.** -/
theorem forRange_returns (I : ℕ → σ → Prop) (hle : lo ≤ hi) (h0 : I lo s)
    (hstep : ∀ i s, lo ≤ i → i < hi → I i s → Returns (body i s) (I (i + 1))) :
    Returns (forRange lo hi body s) (I hi) := by
  have := loopUp_returns (hi - lo) h0 fun j s hj hj' => hstep j s hj (by omega)
  rwa [show lo + (hi - lo) = hi by omega] at this

theorem forRange_append {count : ℕ} {body : ℕ → List α → Checked (List α)} {piece : ℕ → List α}
    (h : ∀ i < count, ∀ out, body i out = .ok (out ++ piece i)) (out : List α) :
    forRange 0 count body out = .ok (out ++ (List.range count).flatMap piece) := by
  have hstep : ∀ i out', 0 ≤ i → i < count → out' = out ++ (List.range i).flatMap piece →
      Returns (body i out') fun out'' => out'' = out ++ (List.range (i + 1)).flatMap piece := by
    intro i out' _ hi hout'
    rw [h i hi, returns_ok, hout', range_succ, flatMap_append, append_assoc,
      flatMap_singleton]
  have h0 : out = out ++ (List.range 0).flatMap piece := by simp
  obtain ⟨out', hout', rfl⟩ := forRange_returns _ (Nat.zero_le count) h0 hstep
  exact hout'

theorem loopDown_returns (count : ℕ) {lo : ℕ} (h0 : I (lo + count) s)
    (hstep : ∀ j s, lo < j → j ≤ lo + count → I j s → Returns (body j s) (I (j - 1))) :
    Returns (loopDown body count (lo + count) s) (I lo) := by
  induction count generalizing s with
  | zero => exact returns_ok.mpr h0
  | succ count ih =>
    refine (hstep _ s (by omega) le_rfl h0).bind fun s' hs' => ?_
    exact ih hs' fun j s hj hj' => hstep j s hj (by omega)

/-- **The rule of the downward loop.** -/
theorem forDown_returns (I : ℕ → σ → Prop) (hle : lo ≤ hi) (h0 : I hi s)
    (hstep : ∀ i s, lo < i → i ≤ hi → I i s → Returns (body i s) (I (i - 1))) :
    Returns (forDown hi lo body s) (I lo) := by
  obtain ⟨count, rfl⟩ := Nat.exists_eq_add_of_le hle
  rw [forDown, Nat.add_sub_cancel_left]
  exact loopDown_returns count h0 hstep

/-- What a round, or a whole loop, may end with: `I` for the next round, `Q` for the exit. -/
def Round.Ends (I : σ → Prop) (Q : ρ → Prop) : Round σ ρ → Prop
  | .next s => I s
  | .stop r => Q r

theorem loopScan_returns {body : ℕ → σ → Checked (Round σ ρ)} {Q : ρ → Prop} (count : ℕ) {i : ℕ}
    (h0 : I i s)
    (hstep : ∀ j s, i ≤ j → j < i + count → I j s → Returns (body j s) (Round.Ends (I (j + 1)) Q)) :
    Returns (loopScan body count i s) (Round.Ends (I (i + count)) Q) := by
  induction count generalizing i s with
  | zero => exact returns_ok.mpr h0
  | succ count ih =>
    refine (hstep i s le_rfl (by omega) h0).bind fun round hround => ?_
    cases round with
    | next s' =>
      have := ih hround fun j s hj hj' => hstep j s (by omega) (by omega)
      rwa [show i + 1 + count = i + (count + 1) by omega] at this
    | stop r => exact returns_ok.mpr hround

/-- **The rule of the loop with an early exit.** -/
theorem scanRange_returns {body : ℕ → σ → Checked (Round σ ρ)} (I : ℕ → σ → Prop) (Q : ρ → Prop)
    (hle : lo ≤ hi) (h0 : I lo s)
    (hstep : ∀ i s, lo ≤ i → i < hi → I i s → Returns (body i s) (Round.Ends (I (i + 1)) Q)) :
    Returns (scanRange lo hi body s) (Round.Ends (I hi) Q) := by
  have := loopScan_returns (hi - lo) h0 fun j s hj hj' => hstep j s hj (by omega)
  rwa [show lo + (hi - lo) = hi by omega] at this

/-- A loop that leaves with `false` at the first index that fails a check. -/
def allRange (lo hi : ℕ) (check : ℕ → Checked Bool) : Checked Bool := do
  let round ← scanRange lo hi (fun index (_ : Unit) => do
    if ← check index then return .next ()
    return .stop false) ()
  match round with
  | .stop result => return result
  | .next () => return true

theorem allRange_returns {check : ℕ → Checked Bool} (P : ℕ → Prop) (hle : lo ≤ hi)
    (h : ∀ i, lo ≤ i → i < hi → Returns (check i) fun r => r = true ↔ P i) :
    Returns (allRange lo hi check) fun r => r = true ↔ ∀ i, lo ≤ i → i < hi → P i := by
  unfold allRange
  refine (scanRange_returns (fun i (_ : Unit) => ∀ j, lo ≤ j → j < i → P j)
    (fun r => r = false ∧ ∃ i, lo ≤ i ∧ i < hi ∧ ¬P i) hle (fun j h h' => absurd h' (by omega))
    fun i _ hi hi' hall => ?_).bind fun round hround => ?_
  · refine (h i hi hi').bind fun r hr => ?_
    cases r with
    | true =>
      refine returns_pure.mpr fun j hj hj' => ?_
      rcases Nat.lt_succ_iff_lt_or_eq.mp hj' with hlt | rfl
      · exact hall j hj hlt
      · exact hr.mp rfl
    | false => exact returns_pure.mpr ⟨rfl, i, hi, hi', fun hP => Bool.false_ne_true (hr.mpr hP)⟩
  · cases round with
    | stop result =>
      obtain ⟨rfl, i, hi, hi', hP⟩ := hround
      exact returns_pure.mpr ⟨fun h => absurd h Bool.false_ne_true, fun hall => absurd
        (hall i hi hi') hP⟩
    | next s => exact returns_pure.mpr ⟨fun _ => hround, fun _ => rfl⟩

/-! ### Byte strings behind pointers -/

/-- What a `const uint8_t *` reads at an index. -/
abbrev ByteSource := ℕ → Checked UInt8

/-- The pointer points to the bytes: every byte can be read. -/
def Points (source : ByteSource) (bytes : List UInt8) : Prop :=
  ∀ i (hi : i < bytes.length), source i = .ok bytes[i]

theorem points_readList (bytes : List UInt8) : Points (readList bytes) bytes :=
  fun _ hi => readList_eq bytes hi

variable {source : ByteSource} {bytes : List UInt8}

theorem Points.take (h : Points source bytes) (k : ℕ) : Points source (bytes.take k) := by
  intro i hi
  rw [getElem_take, h i (by simp at hi; omega)]

theorem Points.drop (h : Points source bytes) (k : ℕ) :
    Points (fun i => source (k + i)) (bytes.drop k) := by
  intro i hi
  rw [getElem_drop]
  exact h (k + i) (by simp at hi; omega)

/-- `copy_bytes` into an array, from its cell `base` on. -/
def copyBytes (destination : FixedArray UInt8 n) (base : ℕ) (source : ByteSource) (length : ℕ) :
    Checked (FixedArray UInt8 n) :=
  forRange 0 length (fun index destination => do
    let byte ← source index
    destination.write (base + index) byte) destination

/-- A byte copy changes exactly the cells it covers. -/
theorem copyBytes_returns (destination : FixedArray UInt8 n) {base length : ℕ}
    (hsource : Points source bytes) (hlength : length = bytes.length)
    (hfit : base + bytes.length ≤ n) :
    Returns (copyBytes destination base source length) fun result =>
      (∀ k (hk : k < bytes.length), result.get (base + k) = bytes[k]) ∧
        ∀ k, k < base ∨ base + bytes.length ≤ k → result.get k = destination.get k := by
  subst hlength
  refine (forRange_returns (fun i (result : FixedArray UInt8 n) =>
    (∀ k (hk : k < bytes.length), k < i → result.get (base + k) = bytes[k]) ∧
      ∀ k, k < base ∨ base + i ≤ k → result.get k = destination.get k)
    (Nat.zero_le _) ⟨fun _ _ h => absurd h (Nat.not_lt_zero _), fun _ _ => rfl⟩ ?_).mono
    fun result h => ⟨fun k hk => h.1 k hk hk, h.2⟩
  intro i result _ hi hresult
  rw [hsource i hi, ok_bind, FixedArray.write_eq _ (by omega), returns_ok]
  constructor
  · intro k hk hki
    rw [FixedArray.get_set _ (by omega)]
    rcases Nat.lt_succ_iff_lt_or_eq.mp hki with hlt | rfl
    · rw [if_neg (by omega), hresult.1 k hk hlt]
    · rw [if_pos rfl]
  · intro k hk
    rw [FixedArray.get_set _ (by omega), if_neg (by omega), hresult.2 k (by omega)]

end Carcer.Machine
