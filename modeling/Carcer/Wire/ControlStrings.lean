import Carcer.Wire.Runes

/-!
# Control strings

A scanner that takes the operating system commands out of a text: a command begins with one symbol
or with an escape and a bracket, and ends with a bell, with one symbol or with an escape and a
backslash. The scanner works on symbols of any kind, the bytes of a text or its characters.

## Main definitions

* `Controls`: the symbols that mean something
* `pieces`: what the scanner reads, piece by piece, with what it keeps and what it removes
* `marks`: for each symbol, whether it is kept

## Main results

* `pieces_kept`, `pieces_open`, `pieces_removed`: one turn of the scanner
* `marks_kept`, `marks_open`, `marks_removed`: what one turn marks
* `output_eq_select`: the marks determine the output
-/

namespace Carcer.Wire

open List

variable {α : Type}

/-- The symbols that mean something to the scanner. -/
structure Controls (α : Type) where
  /-- Begins a command. -/
  osc : α
  /-- Ends a command. -/
  st : α
  bel : α
  esc : α
  bracket : α
  backslash : α

/-- A stretch of the text. -/
inductive Piece (α : Type)
  | kept (symbols : List α)
  | removed (symbols : List α)
  deriving DecidableEq

namespace Piece

/-- The symbols of a piece. -/
def symbols : Piece α → List α
  | .kept symbols => symbols
  | .removed symbols => symbols

/-- What is written of a piece. -/
def output : Piece α → List α
  | .kept symbols => symbols
  | .removed _ => []

/-- For each symbol, whether it is kept. -/
def marks : Piece α → List Bool
  | .kept symbols => List.replicate symbols.length true
  | .removed symbols => List.replicate symbols.length false

/-- A piece of characters as a piece of bytes. -/
def flatten : Piece (List α) → Piece α
  | .kept symbols => .kept symbols.flatten
  | .removed symbols => .removed symbols.flatten

end Piece

/-- For each symbol of a text, whether it is kept. -/
def marks (pieces : List (Piece α)) : List Bool := pieces.flatMap Piece.marks

/-- The symbols that are marked. -/
def select : List Bool → List α → List α
  | true :: marks, a :: text => a :: select marks text
  | false :: marks, _ :: text => select marks text
  | _, _ => []

theorem select_append {first second : List Bool} {a b : List α} (h : first.length = a.length) :
    select (first ++ second) (a ++ b) = select first a ++ select second b := by
  induction first generalizing a with
  | nil =>
    obtain rfl := eq_nil_of_length_eq_zero h.symm
    rfl
  | cons mark first ih =>
    cases a with
    | nil => cases h
    | cons symbol a =>
      have hlength : first.length = a.length := by simpa using h
      cases mark with
      | true | false => simp [select, ih hlength]

theorem select_replicate_true (text : List α) :
    select (List.replicate text.length true) text = text := by
  induction text with
  | nil => rfl
  | cons a text ih => simp [select, replicate_succ, ih]

theorem select_replicate_false (text : List α) :
    select (List.replicate text.length false) text = [] := by
  induction text with
  | nil => rfl
  | cons a text ih => simp [select, replicate_succ, ih]

/-- **The marks determine what is written.** -/
theorem output_eq_select (pieces : List (Piece α)) :
    pieces.flatMap Piece.output = select (marks pieces) (pieces.flatMap Piece.symbols) := by
  induction pieces with
  | nil => rfl
  | cons piece pieces ih =>
    have hlength : piece.marks.length = piece.symbols.length := by
      cases piece <;> simp [Piece.marks, Piece.symbols]
    rw [flatMap_cons, flatMap_cons, marks, flatMap_cons, select_append hlength, ih]
    congr 1
    cases piece with
    | kept symbols => exact (select_replicate_true symbols).symm
    | removed symbols => exact (select_replicate_false symbols).symm

section Scanner

variable [DecidableEq α] (controls : Controls α)

/-- The number of symbols that begin a command. -/
def introducer : List α → Option ℕ
  | [] => none
  | a :: rest =>
    if a = controls.osc then some 1
    else if a = controls.esc ∧ rest.head? = some controls.bracket then some 2
    else none

/-- The number of symbols up to the end of a command. -/
def sequenceEnd : List α → Option ℕ
  | [] => none
  | a :: rest =>
    if a = controls.bel ∨ a = controls.st then some 1
    else if a = controls.esc ∧ rest.head? = some controls.backslash then some 2
    else (sequenceEnd rest).map (· + 1)

/-- The scanner: a symbol is kept, a command is removed, and what begins a command that does not end
is kept with all that stands behind it. -/
def piecesFrom : ℕ → List α → List (Piece α)
  | 0, _ => []
  | _ + 1, [] => []
  | fuel + 1, a :: rest =>
    match introducer controls (a :: rest) with
    | none => .kept [a] :: piecesFrom fuel rest
    | some width =>
      match sequenceEnd controls ((a :: rest).drop width) with
      | none => [.kept (a :: rest)]
      | some n =>
        .removed ((a :: rest).take (width + n)) :: piecesFrom fuel ((a :: rest).drop (width + n))

def pieces (text : List α) : List (Piece α) := piecesFrom controls text.length text

variable {controls} {text : List α} {width : ℕ} {a : α}

theorem introducer_pos (h : introducer controls text = some width) :
    0 < width ∧ width ≤ text.length := by
  cases text with
  | nil => cases h
  | cons a rest =>
    rw [introducer] at h
    split_ifs at h with hosc hesc
    · cases h
      simp
    cases h
    cases rest with
    | nil => cases hesc.2
    | cons b rest => simp

theorem sequenceEnd_pos {n : ℕ} (h : sequenceEnd controls text = some n) :
    0 < n ∧ n ≤ text.length := by
  induction text generalizing n with
  | nil => cases h
  | cons a rest ih =>
    rw [sequenceEnd] at h
    split_ifs at h with hend hesc
    · cases h
      simp
    · cases h
      cases rest with
      | nil => cases hesc.2
      | cons b rest => simp
    obtain ⟨m, hm, rfl⟩ := Option.map_eq_some_iff.mp h
    have hle := (ih hm).2
    simp only [length_cons]
    omega

theorem piecesFrom_of_le {fuel fuel' : ℕ} (h : text.length ≤ fuel) (h' : text.length ≤ fuel') :
    piecesFrom controls fuel text = piecesFrom controls fuel' text := by
  induction fuel generalizing fuel' text with
  | zero =>
    obtain rfl := eq_nil_of_length_eq_zero (Nat.le_zero.mp h)
    cases fuel' <;> rfl
  | succ fuel ih =>
    rcases text with _ | ⟨a, rest⟩
    · cases fuel' <;> rfl
    rcases fuel' with _ | fuel'
    · cases h'
    have hrest : rest.length ≤ fuel := by simpa using h
    have hrest' : rest.length ≤ fuel' := by simpa using h'
    rw [piecesFrom, piecesFrom]
    cases hintro : introducer controls (a :: rest) with
    | none => simp only [ih hrest hrest']
    | some width =>
      simp only
      cases hend : sequenceEnd controls ((a :: rest).drop width) with
      | none => rfl
      | some n =>
        have hpos := (introducer_pos hintro).1
        have hlength : ((a :: rest).drop (width + n)).length ≤ rest.length := by
          rw [length_drop, length_cons]
          omega
        simp only [ih (hlength.trans hrest) (hlength.trans hrest')]

@[simp] theorem pieces_nil : pieces controls [] = [] := rfl

theorem pieces_kept {rest : List α} (h : introducer controls (a :: rest) = none) :
    pieces controls (a :: rest) = .kept [a] :: pieces controls rest := by
  rw [pieces, length_cons, piecesFrom, h]
  rfl

theorem pieces_open (h : introducer controls text = some width)
    (hend : sequenceEnd controls (text.drop width) = none) :
    pieces controls text = [.kept text] := by
  cases text with
  | nil => cases h
  | cons a rest => rw [pieces, length_cons, piecesFrom, h]; simp only [hend]

theorem pieces_removed {width n : ℕ} (h : introducer controls text = some width)
    (hend : sequenceEnd controls (text.drop width) = some n) :
    pieces controls text =
      .removed (text.take (width + n)) :: pieces controls (text.drop (width + n)) := by
  cases text with
  | nil => cases h
  | cons a rest =>
    have hpos := (introducer_pos h).1
    rw [pieces, length_cons, piecesFrom, h]
    simp only [hend]
    rw [pieces, piecesFrom_of_le (by rw [length_drop, length_cons]; omega) le_rfl]

theorem flatMap_symbols_pieces (text : List α) :
    (pieces controls text).flatMap Piece.symbols = text := by
  induction hlength : text.length using Nat.strong_induction_on generalizing text with
  | _ length ih =>
    rcases text with _ | ⟨a, rest⟩
    · rfl
    rcases hintro : introducer controls (a :: rest) with _ | width
    · rw [pieces_kept hintro, flatMap_cons, ih rest.length (by simp [← hlength]) rest rfl]
      rfl
    cases hend : sequenceEnd controls ((a :: rest).drop width) with
    | none =>
      rw [pieces_open hintro hend]
      simp [Piece.symbols]
    | some n =>
      have hpos := (introducer_pos hintro).1
      have hless : ((a :: rest).drop (width + n)).length < length := by
        rw [← hlength, length_drop, length_cons]
        omega
      rw [pieces_removed hintro hend, flatMap_cons, ih _ hless _ rfl]
      exact take_append_drop _ _

theorem marks_kept {rest : List α} (h : introducer controls (a :: rest) = none) :
    marks (pieces controls (a :: rest)) = true :: marks (pieces controls rest) := by
  rw [pieces_kept h]
  rfl

theorem marks_open (h : introducer controls text = some width)
    (hend : sequenceEnd controls (text.drop width) = none) :
    marks (pieces controls text) = List.replicate text.length true := by
  rw [pieces_open h hend]
  simp [marks, Piece.marks]

theorem marks_removed {width n : ℕ} (h : introducer controls text = some width)
    (hend : sequenceEnd controls (text.drop width) = some n) :
    marks (pieces controls text) =
      List.replicate (width + n) false ++ marks (pieces controls (text.drop (width + n))) := by
  have hlength : (text.take (width + n)).length = width + n := by
    have hwidth := (introducer_pos h).2
    have hn := (sequenceEnd_pos hend).2
    rw [length_drop] at hn
    rw [length_take]
    omega
  rw [pieces_removed h hend, marks, flatMap_cons, Piece.marks, hlength]
  rfl

/-- Where nothing ends behind a symbol, nothing ends behind any later one. -/
theorem sequenceEnd_drop (h : sequenceEnd controls text = none) (n : ℕ) :
    sequenceEnd controls (text.drop n) = none := by
  induction n generalizing text with
  | zero => exact h
  | succ n ih =>
    cases text with
    | nil => rfl
    | cons a rest =>
      rw [sequenceEnd] at h
      split_ifs at h
      exact ih (Option.map_eq_none_iff.mp h)

/-- **Where nothing ends, all is kept.** -/
theorem marks_of_sequenceEnd (h : sequenceEnd controls text = none) :
    marks (pieces controls text) = List.replicate text.length true := by
  induction text with
  | nil => rfl
  | cons a rest ih =>
    cases hintro : introducer controls (a :: rest) with
    | none =>
      rw [marks_kept hintro, ih (sequenceEnd_drop h 1)]
      rfl
    | some width => exact marks_open hintro (sequenceEnd_drop h width)

/-- A text without the symbols that begin a command is written as it is. -/
theorem output_of_plain (h : ∀ a ∈ text, a ≠ controls.osc ∧ a ≠ controls.esc) :
    (pieces controls text).flatMap Piece.output = text := by
  induction text with
  | nil => rfl
  | cons a rest ih =>
    obtain ⟨ha, hrest⟩ := forall_mem_cons.mp h
    have hintro : introducer controls (a :: rest) = none := by simp [introducer, ha]
    rw [pieces_kept hintro, flatMap_cons, ih hrest]
    rfl

theorem mem_of_mem_output (h : a ∈ (pieces controls text).flatMap Piece.output) : a ∈ text := by
  obtain ⟨piece, hpiece, ha⟩ := mem_flatMap.mp h
  rw [← @flatMap_symbols_pieces α _ controls text]
  refine mem_flatMap.mpr ⟨piece, hpiece, ?_⟩
  cases piece with
  | kept symbols => exact ha
  | removed symbols => cases ha

end Scanner

theorem flatMap_output_flatten (pieces : List (Piece (List α))) :
    (pieces.map Piece.flatten).flatMap Piece.output = (pieces.flatMap Piece.output).flatten := by
  induction pieces with
  | nil => rfl
  | cons piece pieces ih =>
    rw [map_cons, flatMap_cons, flatMap_cons, flatten_append, ih]
    cases piece <;> rfl

theorem flatMap_symbols_flatten (pieces : List (Piece (List α))) :
    (pieces.map Piece.flatten).flatMap Piece.symbols = (pieces.flatMap Piece.symbols).flatten := by
  induction pieces with
  | nil => rfl
  | cons piece pieces ih =>
    rw [map_cons, flatMap_cons, flatMap_cons, flatten_append, ih]
    cases piece <;> rfl

end Carcer.Wire
