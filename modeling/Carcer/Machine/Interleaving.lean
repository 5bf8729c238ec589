import Mathlib.Algebra.BigOperators.Group.List.Basic
import Mathlib.Algebra.Group.Nat.Defs
import Mathlib.Algebra.GroupWithZero.Nat
import Mathlib.Data.List.Induction
import Mathlib.Data.List.Perm.Basic

/-!
# Interleavings of calls

Calls on a shared state by any number of threads. A call is a sequence of atomic actions, and the
actions of calls that run at one time are interleaved in any order; an action may put further
actions before the rest of its call.

## Main definitions

* `Operations`: what the first section of a call, and one action, do to the shared state
* `System`, `Move`, `step`, `run`: the calls in progress, and their interleavings

## Main results

* `step_cases`: what one move does
* `run_induction`: what every move preserves holds after every run
* `exists_idle`: the calls in progress can all return
-/

namespace Carcer.Machine.Interleaving

open List

variable {σ κ α : Type}

/-- What calls and actions do to the shared state, and the actions that are left to do. -/
structure Operations (σ κ α : Type) where
  invoke : κ → σ → σ × List α
  perform : κ → α → σ → σ × List α

/-- A call in progress, with the actions that are left. -/
structure Thread (κ α : Type) where
  call : κ
  rest : List α

/-- The shared state and the calls in progress. -/
structure System (σ κ α : Type) where
  shared : σ
  threads : List (Thread κ α)

/-- A new call, or the next action of a call in progress. -/
inductive Move (κ : Type)
  | call (call : κ)
  | advance (thread : ℕ)

def step (ops : Operations σ κ α) (s : System σ κ α) : Move κ → System σ κ α
  | .call call =>
    ⟨(ops.invoke call s.shared).1, s.threads ++ [⟨call, (ops.invoke call s.shared).2⟩]⟩
  | .advance i =>
    match s.threads[i]? with
    | some ⟨call, action :: rest⟩ =>
      ⟨(ops.perform call action s.shared).1,
        s.threads.set i ⟨call, (ops.perform call action s.shared).2 ++ rest⟩⟩
    | _ => s

/-- A run: any calls, and their actions in any order. -/
def run (ops : Operations σ κ α) (init : σ) (moves : List (Move κ)) : System σ κ α :=
  moves.foldl (step ops) ⟨init, []⟩

theorem run_snoc (ops : Operations σ κ α) (init : σ) (moves : List (Move κ)) (move : Move κ) :
    run ops init (moves ++ [move]) = step ops (run ops init moves) move := by
  simp [run]

/-- The actions that are left, of all calls. -/
def System.actions (s : System σ κ α) : List α := s.threads.flatMap Thread.rest

/-- **One move**: a call begins, or one call takes one action; the other calls stay as they
were. -/
theorem step_cases (ops : Operations σ κ α) (s : System σ κ α) (move : Move κ) :
    step ops s move = s ∨
      (∃ call,
        (step ops s move).shared = (ops.invoke call s.shared).1 ∧
        (step ops s move).threads.Perm (⟨call, (ops.invoke call s.shared).2⟩ :: s.threads)) ∨
      ∃ call action rest others,
        s.threads.Perm (⟨call, action :: rest⟩ :: others) ∧
        (step ops s move).shared = (ops.perform call action s.shared).1 ∧
        (step ops s move).threads.Perm
          (⟨call, (ops.perform call action s.shared).2 ++ rest⟩ :: others) := by
  cases move with
  | call call => exact .inr (.inl ⟨call, rfl, perm_append_singleton _ _⟩)
  | advance i =>
    rw [step]
    split
    · rename_i call action rest hi
      obtain ⟨hlt, hget⟩ := List.getElem?_eq_some_iff.mp hi
      refine .inr (.inr ⟨call, action, rest, s.threads.eraseIdx i, ?_, rfl,
        set_perm_cons_eraseIdx hlt _⟩)
      rw [← hget]
      exact (getElem_cons_eraseIdx_perm hlt).symm
    · exact .inl rfl

theorem actions_perm {s : System σ κ α} {thread : Thread κ α} {others : List (Thread κ α)}
    (h : s.threads.Perm (thread :: others)) :
    s.actions.Perm (thread.rest ++ others.flatMap Thread.rest) :=
  h.flatMap_right Thread.rest

/-- **What every move preserves holds after every run.** -/
theorem run_induction {ops : Operations σ κ α} {init : σ} {P : System σ κ α → Prop}
    (hinit : P ⟨init, []⟩) (hstep : ∀ s move, P s → P (step ops s move))
    (moves : List (Move κ)) : P (run ops init moves) := by
  induction moves using List.reverseRecOn with
  | nil => exact hinit
  | append_singleton moves move ih =>
    rw [run_snoc]
    exact hstep _ move ih

/-- **The calls in progress can all return**, where what an action adds weighs less than the
action. -/
theorem exists_idle {ops : Operations σ κ α} (weight : α → ℕ)
    (hweight : ∀ call action s, ((ops.perform call action s).2.map weight).sum < weight action)
    (init : σ) (moves : List (Move κ)) :
    ∃ advances : List ℕ, (run ops init (moves ++ advances.map .advance)).actions = [] := by
  -- the weight of all actions that are left falls with every action
  induction h : ((run ops init moves).actions.map weight).sum using Nat.strongRecOn
    generalizing moves with
  | _ n ih =>
    rcases hactions : (run ops init moves).actions with _ | ⟨action, rest⟩
    · exact ⟨[], by simpa using hactions⟩
    obtain ⟨thread, hmem, haction⟩ : ∃ thread ∈ (run ops init moves).threads,
        action ∈ thread.rest := by
      have : action ∈ (run ops init moves).actions := by simp [hactions]
      simpa [System.actions] using this
    obtain ⟨i, hi, hget⟩ := getElem_of_mem hmem
    obtain ⟨call, actions⟩ := thread
    obtain ⟨first, tail, rfl⟩ := exists_cons_of_ne_nil (ne_nil_of_mem haction)
    have hbefore := ((actions_perm (s := run ops init moves)
      ((getElem_cons_eraseIdx_perm hi).symm)).map weight).sum_eq
    have hafter := ((actions_perm (s := run ops init (moves ++ [.advance i]))
      (by
        rw [run_snoc, step, getElem?_eq_getElem hi, hget]
        exact set_perm_cons_eraseIdx hi _)).map weight).sum_eq
    have hless := hweight call first (run ops init moves).shared
    rw [hget] at hbefore
    simp only [map_append, sum_append, map_cons, sum_cons] at hbefore hafter
    obtain ⟨advances, hidle⟩ := ih _ (by omega) (moves ++ [.advance i]) rfl
    exact ⟨i :: advances, by simpa using hidle⟩

end Carcer.Machine.Interleaving
