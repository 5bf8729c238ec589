import Carcer.Wire.Bytes

/-!
# Calls on a wire

The layout of a call: a name behind its two-byte length, and a list of arguments behind its
two-byte count, each argument behind its four-byte length.

## Main definitions

* `argumentBytes`, `callBytes`: the layout of an argument and of a call
* `takeArguments`: a number of arguments taken off a string
* `splitCall`: the name and the arguments of a call

## Main results

* `takeArguments_eq_ok`: what is taken off a string is what was laid out in front of it
* `splitCall_eq_ok`: a string is split into a call exactly when it is its layout
-/

namespace Carcer.Wire

open List

/-- An argument behind its length. -/
def argumentBytes (argument : Bytes) : Bytes := leBytes 4 argument.length ++ argument

/-- A call: the name behind its length, and the arguments behind their number. -/
def callBytes (name : Bytes) (arguments : List Bytes) : Bytes :=
  leBytes 2 name.length ++ name ++ leBytes 2 arguments.length ++ arguments.flatMap argumentBytes

theorem length_argumentBytes (argument : Bytes) :
    (argumentBytes argument).length = 4 + argument.length := by
  simp [argumentBytes]

theorem length_callBytes (name : Bytes) (arguments : List Bytes) :
    (callBytes name arguments).length =
      2 + name.length + 2 + (arguments.map fun argument => 4 + argument.length).sum := by
  simp [callBytes, length_flatMap, length_argumentBytes]
  omega

theorem length_lt_of_callBytes {name argument : Bytes} {arguments} {bound : ℕ}
    (h : (callBytes name arguments).length ≤ bound) (hmem : argument ∈ arguments) :
    argument.length < bound := by
  have hle : 4 + argument.length ≤ (arguments.map fun argument => 4 + argument.length).sum :=
    single_le_sum (by simp) _ (mem_map_of_mem hmem)
  rw [length_callBytes] at h
  omega

section Take

variable {ε : Type} {shortLength shortArgument : ε}

/-- The next `count` arguments and what stands behind them, or the error of the field in which the
string ends. -/
def takeArguments (shortLength shortArgument : ε) : ℕ → Bytes → Except ε (List Bytes × Bytes)
  | 0, rest => .ok ([], rest)
  | count + 1, rest => do
    let (length, rest) ← takeBytes shortLength 4 rest
    let (argument, rest) ← takeBytes shortArgument (leValue length) rest
    let (arguments, rest) ← takeArguments shortLength shortArgument count rest
    return (argument :: arguments, rest)

/-- The arguments are taken off a string exactly when they stand in front of it. -/
theorem takeArguments_eq_ok {count : ℕ} {rest rest' : Bytes} {arguments : List Bytes} :
    takeArguments shortLength shortArgument count rest = .ok (arguments, rest') ↔
      arguments.length = count ∧ (∀ argument ∈ arguments, argument.length < 2 ^ 32) ∧
        rest = arguments.flatMap argumentBytes ++ rest' := by
  induction count generalizing rest rest' arguments with
  | zero =>
    rw [takeArguments, Except.ok.injEq, Prod.mk.injEq, length_eq_zero_iff]
    constructor
    · rintro ⟨rfl, rfl⟩
      simp
    · rintro ⟨rfl, -, rfl⟩
      simp
  | succ count ih =>
    simp only [takeArguments, bind_eq_ok, Prod.exists, takeBytes_eq_ok, ih, pure, Except.pure,
      Except.ok.injEq, Prod.mk.injEq]
    constructor
    · rintro ⟨word, _, ⟨hword, rfl⟩, argument, _, ⟨hargument, rfl⟩, arguments, _,
        ⟨hcount, hwords, rfl⟩, rfl, rfl⟩
      have hlt := leValue_lt word
      rw [hword, ← hargument] at hlt
      refine ⟨by simp [hcount], forall_mem_cons.mpr ⟨hlt, hwords⟩, ?_⟩
      rw [flatMap_cons, argumentBytes, hargument, ← eq_leBytes hword, append_assoc,
        append_assoc]
    · rintro ⟨hcount, hwords, rfl⟩
      match arguments with
      | [] => cases hcount
      | argument :: arguments =>
        obtain ⟨hword, hwords⟩ := forall_mem_cons.mp hwords
        refine ⟨leBytes 4 argument.length, _, ⟨length_leBytes _ _, ?_⟩, argument, _,
          ⟨(leValue_leBytes hword).symm, rfl⟩, arguments, rest',
          ⟨Nat.succ.inj hcount, hwords, rfl⟩, rfl, rfl⟩
        rw [flatMap_cons, argumentBytes, append_assoc, append_assoc]

/-- The errors of a decoder of calls, one for each of its checks. -/
structure CallErrors (ε : Type) where
  nameLength : ε
  emptyName : ε
  nameTooLong : ε
  name : ε
  encoding : ε
  count : ε
  tooManyArguments : ε
  argumentLength : ε
  argument : ε
  trailing : ε

/-- The arguments behind their number, and nothing behind them. -/
def splitArguments (errors : CallErrors ε) (maxArguments : ℕ) (rest : Bytes) :
    Except ε (List Bytes) := do
  let (count, rest) ← takeBytes errors.count 2 rest
  failIf (leValue count > maxArguments) errors.tooManyArguments
  let (arguments, rest) ← takeArguments errors.argumentLength errors.argument (leValue count) rest
  failIf (rest ≠ []) errors.trailing
  return arguments

/-- The name and the arguments of a call, with a limit for each of them. -/
def splitCall (errors : CallErrors ε) (maxName maxArguments : ℕ) (payload : Bytes) :
    Except ε (Bytes × List Bytes) := do
  let (nameLength, rest) ← takeBytes errors.nameLength 2 payload
  failIf (leValue nameLength = 0) errors.emptyName
  failIf (leValue nameLength > maxName) errors.nameTooLong
  let (name, rest) ← takeBytes errors.name (leValue nameLength) rest
  failIf (!utf8Valid name) errors.encoding
  return (name, ← splitArguments errors maxArguments rest)

theorem splitArguments_eq_ok {errors : CallErrors ε} {maxArguments : ℕ}
    (hmaxArguments : maxArguments < 2 ^ 16) {rest : Bytes} {arguments : List Bytes} :
    splitArguments errors maxArguments rest = .ok arguments ↔
      arguments.length ≤ maxArguments ∧ (∀ argument ∈ arguments, argument.length < 2 ^ 32) ∧
        rest = leBytes 2 arguments.length ++ arguments.flatMap argumentBytes := by
  simp only [splitArguments, bind_eq_ok, failIf_eq_ok, exists_const, Prod.exists, takeBytes_eq_ok,
    takeArguments_eq_ok, pure, Except.pure, Except.ok.injEq, not_not, not_lt]
  constructor
  · rintro ⟨count, _, ⟨hcount, rfl⟩, hmax, arguments, _, ⟨hnumber, hwords, rfl⟩, rfl, rfl⟩
    refine ⟨hnumber ▸ hmax, hwords, ?_⟩
    rw [hnumber, ← eq_leBytes hcount, append_nil]
  · rintro ⟨hmax, hwords, rfl⟩
    have hcount : leValue (leBytes 2 arguments.length) = arguments.length :=
      leValue_leBytes (hmax.trans_lt hmaxArguments)
    exact ⟨leBytes 2 arguments.length, _, ⟨length_leBytes _ _, rfl⟩, by rwa [hcount], arguments, [],
      ⟨hcount.symm, hwords, (append_nil _).symm⟩, rfl, rfl⟩

/-- **A string is split into a call exactly when it is the layout of the call.** -/
theorem splitCall_eq_ok {errors : CallErrors ε} {maxName maxArguments : ℕ}
    (hmaxName : maxName < 2 ^ 16) (hmaxArguments : maxArguments < 2 ^ 16) {payload name : Bytes}
    (hword : payload.length < 2 ^ 32) {arguments : List Bytes} :
    splitCall errors maxName maxArguments payload = .ok (name, arguments) ↔
      utf8Valid name = true ∧ name ≠ [] ∧ name.length ≤ maxName ∧
        arguments.length ≤ maxArguments ∧ payload = callBytes name arguments := by
  simp only [splitCall, bind_eq_ok, failIf_eq_ok, exists_const, Prod.exists, takeBytes_eq_ok,
    splitArguments_eq_ok hmaxArguments, pure, Except.pure, Except.ok.injEq, Prod.mk.injEq, not_lt]
  constructor
  · rintro ⟨nameLength, _, ⟨hname, rfl⟩, hne, hle, name, _, ⟨hlength, rfl⟩, hutf8, arguments,
      ⟨hmax, -, rfl⟩, rfl, rfl⟩
    refine ⟨by simpa using hutf8, ?_, hlength ▸ hle, hmax, ?_⟩
    · rintro rfl
      exact hne hlength.symm
    · rw [callBytes, hlength, ← eq_leBytes hname]
      simp only [append_assoc]
  · rintro ⟨hutf8, hne, hle, hmax, rfl⟩
    have hname : leValue (leBytes 2 name.length) = name.length :=
      leValue_leBytes (hle.trans_lt hmaxName)
    have hwords : ∀ argument ∈ arguments, argument.length < 2 ^ 32 := fun _ hmem =>
      (length_lt_of_callBytes le_rfl hmem).trans hword
    refine ⟨leBytes 2 name.length, _, ⟨length_leBytes _ _, ?_⟩, ?_, ?_, name, _,
      ⟨hname.symm, rfl⟩, by simpa using hutf8, arguments, ⟨hmax, hwords, rfl⟩, rfl, rfl⟩
    · simp only [callBytes, append_assoc]
    · rw [hname]
      exact fun h => hne (eq_nil_of_length_eq_zero h)
    · rwa [hname]

end Take

end Carcer.Wire
