import Carcer.Wire.ControlStrings

/-!
# Commands in rendered text

The renderer writes hyperlinks as operating system commands, and `stripOSCSequences` takes the
commands out of what it wrote. It looks at bytes. The introducer U+009D and the terminator U+009C
are characters, and the bytes 0x9D and 0x9C stand in the encodings of many others, such as the
typographic quotation marks.

## Main definitions

* `stripOSCSequences`: the scanner over the bytes
* `commands`: the commands in a text, read as characters
* `Strips`: exactly the commands are taken out
* `calm`: no byte of another character is taken for an introducer or a terminator

## Main results

* `strips_iff_calm`: exactly the commands are taken out if and only if the text is calm
-/

namespace Carcer.Tui

open Carcer.Wire List

/-! ### The scanner -/

/-- The bytes that mean something to the scanner. -/
def byteControls : Controls UInt8 := ⟨0x9d, 0x9c, 0x07, 0x1b, 0x5d, 0x5c⟩

def stripOSCSequences (value : Bytes) : Bytes :=
  (pieces byteControls value).flatMap Piece.output

/-- The characters that mean something: U+009D, U+009C, BEL, ESC, `]` and `\`. -/
def charControls : Controls Bytes :=
  ⟨[0xc2, 0x9d], [0xc2, 0x9c], [0x07], [0x1b], [0x5d], [0x5c]⟩

/-- The text as its characters have it: what is kept, and the complete commands. -/
def commands (text : Bytes) : List (Piece UInt8) :=
  (pieces charControls (sequences text)).map Piece.flatten

/-- A C1 control character. -/
def IsC1 (char : Bytes) : Prop := ∃ byte : UInt8, char = [0xc2, byte] ∧ 0x80 ≤ byte ∧ byte ≤ 0x9f

/-- **Exactly the complete commands are taken out** of a text. -/
structure Strips (text : Bytes) : Prop where
  /-- The bytes that are removed are those of the complete commands. -/
  exact : marks (pieces byteControls text) = marks (commands text)
  valid : utf8Valid (stripOSCSequences text) = true
  /-- A text with neither ESC nor a C1 control character stays as it is. -/
  plain : (∀ char ∈ sequences text, char ≠ [0x1b] ∧ ¬IsC1 char) → stripOSCSequences text = text

/-! ### Calm texts -/

/-- The bytes at the front begin no command, or one that does not end. -/
def settled (text : Bytes) : Bool :=
  match introducer byteControls text with
  | none => true
  | some width => (sequenceEnd byteControls (text.drop width)).isNone

/-- No byte of `bytes` begins a command that ends in them or in what stands behind them. -/
def quiet : Bytes → Bytes → Bool
  | [], _ => true
  | byte :: bytes, behind => settled (byte :: bytes ++ behind) && quiet bytes behind

/-- Each byte 0x9C but the last is directly followed by what begins a command again. -/
def rejoined : Bytes → Bool
  | [] => true
  | byte :: bytes =>
    (byte ≠ 0x9c || bytes.isEmpty || (introducer byteControls bytes).isSome) && rejoined bytes

/-- What is kept is quiet; no command begins with U+009D, and in a command the scanner goes on
behind each byte 0x9C before its end. -/
def calm : List (Piece UInt8) → Bool
  | [] => true
  | .kept bytes :: rest => quiet bytes (rest.flatMap Piece.symbols) && calm rest
  | .removed bytes :: rest => bytes.head? ≠ some 0xc2 && rejoined bytes && calm rest

/-! ### What is kept -/

variable {bytes : Bytes} {byte : UInt8} {width : ℕ} {text : Bytes}

/-- Behind an introducer whose command does not end, nothing ends. -/
theorem sequenceEnd_tail (h : introducer byteControls (byte :: bytes) = some width)
    (hend : sequenceEnd byteControls ((byte :: bytes).drop width) = none) :
    sequenceEnd byteControls bytes = none := by
  rw [introducer] at h
  split_ifs at h with hosc hesc
  · cases h
    exact hend
  cases h
  obtain ⟨rest, rfl⟩ := head?_eq_some_iff.mp hesc.2
  have hrest : sequenceEnd byteControls rest = none := hend
  rw [sequenceEnd, if_neg (by decide), if_neg (by simp [byteControls]), hrest]
  rfl

theorem quiet_of_sequenceEnd {bytes behind : Bytes}
    (h : sequenceEnd byteControls (bytes ++ behind) = none) : quiet bytes behind = true := by
  induction bytes with
  | nil => rfl
  | cons byte bytes ih =>
    rw [quiet, Bool.and_eq_true]
    refine ⟨?_, ih (sequenceEnd_drop h 1)⟩
    unfold settled
    split
    · rfl
    rename_i width _
    rw [sequenceEnd_drop h width]
    rfl

/-- **The scanner keeps bytes exactly when they are quiet.** -/
theorem marks_eq_iff_quiet {bytes behind : Bytes} {rest : List Bool} :
    marks (pieces byteControls (bytes ++ behind)) = List.replicate bytes.length true ++ rest ↔
      quiet bytes behind = true ∧ marks (pieces byteControls behind) = rest := by
  induction bytes with
  | nil => simp [quiet]
  | cons byte bytes ih =>
    rw [quiet, cons_append, length_cons, replicate_succ, cons_append]
    rcases hintro : introducer byteControls (byte :: (bytes ++ behind)) with _ | width
    · have hsettled : settled (byte :: (bytes ++ behind)) = true := by simp [settled, hintro]
      rw [marks_kept hintro, List.cons.injEq, ih, hsettled]
      simp
    cases hend : sequenceEnd byteControls ((byte :: (bytes ++ behind)).drop width) with
    | none =>
      -- nothing ends behind the introducer, and all is kept
      have hsettled : settled (byte :: (bytes ++ behind)) = true := by
        simp [settled, hintro, hend]
      have htail := sequenceEnd_tail hintro hend
      have hbehind : sequenceEnd byteControls behind = none := by
        simpa using sequenceEnd_drop htail bytes.length
      rw [marks_open hintro hend, hsettled, quiet_of_sequenceEnd htail,
        marks_of_sequenceEnd hbehind, length_cons, replicate_succ, List.cons.injEq,
        length_append, ← replicate_append_replicate, append_cancel_left_eq]
      simp
    | some n =>
      -- the command that the introducer begins is removed
      have hsettled : settled (byte :: (bytes ++ behind)) = false := by
        simp [settled, hintro, hend]
      have hpos := (introducer_pos hintro).1
      obtain ⟨count, hcount⟩ : ∃ count, width + n = count + 1 := ⟨width + n - 1, by omega⟩
      rw [marks_removed hintro hend, hsettled, hcount, replicate_succ]
      simp

/-! ### What is removed -/

/-- Bytes that end a command at their end, and with no BEL and no ESC `\` before. -/
inductive Closed : Bytes → Prop
  | bel : Closed [0x07]
  | st : Closed [0x9c]
  | backslash : Closed [0x1b, 0x5c]
  | cons {byte : UInt8} {bytes : Bytes} (hbel : byte ≠ 0x07)
      (hesc : ¬(byte = 0x1b ∧ bytes.head? = some 0x5c)) (h : Closed bytes) : Closed (byte :: bytes)

/-- What the scanner marks when it is inside of a command. -/
def insideMarks (text : Bytes) : List Bool :=
  match sequenceEnd byteControls text with
  | none => []
  | some n => List.replicate n false ++ marks (pieces byteControls (text.drop n))

theorem Closed.isSome (h : Closed bytes) (behind : Bytes) :
    (sequenceEnd byteControls (bytes ++ behind)).isSome = true := by
  induction h with
  | bel | st | backslash => rfl
  | cons _ _ _ ih =>
    rw [cons_append, sequenceEnd]
    split_ifs
    · rfl
    · rfl
    · simpa using ih

theorem Closed.ne_nil (h : Closed bytes) : bytes ≠ [] := by
  cases h <;> simp

theorem insideMarks_of_end {n : ℕ} (h : sequenceEnd byteControls text = some n) :
    insideMarks text = List.replicate n false ++ marks (pieces byteControls (text.drop n)) := by
  simp only [insideMarks, h]

theorem sequenceEnd_cons (hbel : byte ≠ 0x07) (hst : byte ≠ 0x9c)
    (hesc : ¬(byte = 0x1b ∧ bytes.head? = some 0x5c)) :
    sequenceEnd byteControls (byte :: bytes) = (sequenceEnd byteControls bytes).map (· + 1) := by
  have hend : ¬(byte = byteControls.bel ∨ byte = byteControls.st) := not_or.mpr ⟨hbel, hst⟩
  have hback : ¬(byte = byteControls.esc ∧ bytes.head? = some byteControls.backslash) := hesc
  rw [sequenceEnd, if_neg hend, if_neg hback]

/-- Inside of a command a byte that ends nothing is removed. -/
theorem insideMarks_cons (hbel : byte ≠ 0x07) (hst : byte ≠ 0x9c)
    (hesc : ¬(byte = 0x1b ∧ bytes.head? = some 0x5c))
    (hend : (sequenceEnd byteControls bytes).isSome = true) :
    insideMarks (byte :: bytes) = false :: insideMarks bytes := by
  obtain ⟨n, hn⟩ := Option.isSome_iff_exists.mp hend
  have hstep : sequenceEnd byteControls (byte :: bytes) = some (n + 1) := by
    rw [sequenceEnd_cons hbel hst hesc, hn]
    rfl
  rw [insideMarks_of_end hstep, insideMarks_of_end hn]
  rfl

theorem sequenceEnd_introducer
    (h : introducer byteControls bytes = some width) :
    sequenceEnd byteControls bytes =
      (sequenceEnd byteControls (bytes.drop width)).map (width + ·) := by
  rcases bytes with _ | ⟨byte, bytes⟩
  · cases h
  rw [introducer] at h
  split_ifs at h with hosc hesc
  · cases h
    obtain rfl : byte = 0x9d := hosc
    rw [sequenceEnd_cons (by decide) (by decide) (by simp), drop_succ_cons, drop_zero]
    cases sequenceEnd byteControls bytes with
    | none => rfl
    | some n => simp [Nat.add_comm]
  · cases h
    obtain ⟨rfl, hbracket⟩ : byte = 0x1b ∧ bytes.head? = some 0x5d := hesc
    obtain ⟨rest, rfl⟩ := head?_eq_some_iff.mp hbracket
    rw [sequenceEnd_cons (by decide) (by decide) (by simp),
      sequenceEnd_cons (by decide) (by decide) (by simp), drop_succ_cons,
      drop_succ_cons, drop_zero]
    cases sequenceEnd byteControls rest with
    | none => rfl
    | some n => simp [Nat.add_comm, Nat.add_left_comm]

/-- The scanner that meets an introducer marks as if it were inside of a command already. -/
theorem marks_eq_insideMarks (h : introducer byteControls bytes = some width)
    (hend : (sequenceEnd byteControls bytes).isSome = true) :
    marks (pieces byteControls bytes) = insideMarks bytes := by
  have hwhole := sequenceEnd_introducer h
  cases hdrop : sequenceEnd byteControls (bytes.drop width) with
  | none =>
    rw [hwhole, hdrop] at hend
    cases hend
  | some n =>
    rw [hdrop, Option.map_some] at hwhole
    rw [marks_removed h hdrop, insideMarks_of_end hwhole]

/-- What begins a command is found in the bytes of the command. -/
theorem Closed.introducer_append (h : Closed bytes) (behind : Bytes) :
    introducer byteControls (bytes ++ behind) = introducer byteControls bytes := by
  cases h with
  | bel | st | backslash => rfl
  | cons _ _ hclosed =>
    rw [cons_append, introducer, introducer, head?_append_of_ne_nil _ hclosed.ne_nil]

/-- **The scanner removes a command as a whole exactly when it is rejoined.** -/
theorem insideMarks_eq_iff {bytes behind : Bytes} (h : Closed bytes) {rest : List Bool} :
    insideMarks (bytes ++ behind) = List.replicate bytes.length false ++ rest ↔
      rejoined bytes = true ∧ marks (pieces byteControls behind) = rest := by
  induction h with
  | bel | st | backslash => simp [insideMarks, sequenceEnd, byteControls, rejoined]
  | @cons byte bytes hbel hesc hclosed ih =>
    have hsome := hclosed.isSome behind
    have hhead : (bytes ++ behind).head? = bytes.head? := by
      rw [head?_append_of_ne_nil _ hclosed.ne_nil]
    rw [cons_append, length_cons, replicate_succ, cons_append, rejoined]
    by_cases hst : byte = 0x9c
    · -- the byte ends the command for the scanner, which goes on behind it
      subst hst
      have hinside : insideMarks (0x9c :: (bytes ++ behind)) =
          false :: marks (pieces byteControls (bytes ++ behind)) := rfl
      have hempty : bytes.isEmpty = false := by simpa using hclosed.ne_nil
      rw [hinside, List.cons.injEq, hempty]
      cases hintro : introducer byteControls bytes with
      | none =>
        -- the next byte is kept
        obtain ⟨next, later, rfl⟩ := exists_cons_of_ne_nil hclosed.ne_nil
        have hnone : introducer byteControls (next :: (later ++ behind)) = none :=
          (hclosed.introducer_append behind).trans hintro
        rw [cons_append, marks_kept hnone]
        simp [replicate_succ]
      | some width =>
        have hsomeIntro : introducer byteControls (bytes ++ behind) = some width :=
          (hclosed.introducer_append behind).trans hintro
        rw [marks_eq_insideMarks hsomeIntro hsome, ih]
        simp
    · have hesc' : ¬(byte = 0x1b ∧ (bytes ++ behind).head? = some 0x5c) := by rwa [hhead]
      rw [insideMarks_cons hbel hst hesc' hsome, List.cons.injEq, ih]
      simp [hst]

/-! ### Characters and their bytes -/

section Characters

variable {chars : List Bytes}

theorem head_of_ascii (h : ∀ char ∈ chars, IsSequence char) {byte : UInt8} (hbyte : byte < 0x80)
    (hhead : chars.flatten.head? = some byte) : chars.head? = some [byte] := by
  rcases chars with _ | ⟨char, rest⟩
  · cases hhead
  have hchar := h char mem_cons_self
  obtain ⟨first, later, rfl⟩ := exists_cons_of_ne_nil hchar.ne_nil
  obtain rfl : first = byte := by simpa using hhead
  by_cases hlong : ∀ other, first :: later ≠ [other]
  · have hhigh := hchar.high_of_long hlong first mem_cons_self
    exact absurd hbyte (UInt8.not_lt.mpr hhigh)
  obtain ⟨other, heq⟩ := not_forall.mp hlong
  rw [not_not] at heq
  cases heq
  rfl

theorem Closed.append_high {char bytes : Bytes} (h : Closed bytes)
    (hhigh : ∀ byte ∈ char, 0x80 ≤ byte) : Closed (char ++ bytes) := by
  induction char with
  | nil => exact h
  | cons byte char ih =>
    obtain ⟨hbyte, hrest⟩ := forall_mem_cons.mp hhigh
    refine .cons ?_ ?_ (ih hrest)
    · rintro rfl
      exact absurd hbyte (by decide)
    · rintro ⟨rfl, -⟩
      exact absurd hbyte (by decide)

/-- The bytes of the characters up to the end of a command. -/
theorem closed_of_sequenceEnd (h : ∀ char ∈ chars, IsSequence char) {n : ℕ}
    (hend : sequenceEnd charControls chars = some n) : Closed (chars.take n).flatten := by
  induction chars generalizing n with
  | nil => cases hend
  | cons char rest ih =>
    obtain ⟨hchar, hrest⟩ := forall_mem_cons.mp h
    rw [sequenceEnd] at hend
    split_ifs at hend with hone htwo
    · cases hend
      rcases hone with rfl | rfl
      · exact .bel
      · exact .cons (by decide) (by simp) .st
    · cases hend
      obtain ⟨rfl, hback⟩ := htwo
      obtain ⟨later, rfl⟩ := head?_eq_some_iff.mp hback
      exact .backslash
    obtain ⟨m, hm, rfl⟩ := Option.map_eq_some_iff.mp hend
    have hclosed := ih hrest hm
    rw [take_succ_cons, flatten_cons]
    by_cases hlong : ∀ byte, char ≠ [byte]
    · exact hclosed.append_high (hchar.high_of_long hlong)
    obtain ⟨byte, heq⟩ := not_forall.mp hlong
    rw [not_not] at heq
    subst heq
    refine .cons ?_ ?_ hclosed
    · rintro rfl
      exact hone (.inl rfl)
    · rintro ⟨rfl, hhead⟩
      have htake : ∀ part ∈ rest.take m, IsSequence part :=
        fun part hpart => hrest part (mem_of_mem_take hpart)
      have hfirst := head_of_ascii htake (by decide) hhead
      obtain ⟨later, hlater⟩ := head?_eq_some_iff.mp hfirst
      refine htwo ⟨rfl, ?_⟩
      have hpre := take_append_drop m rest
      rw [hlater] at hpre
      rw [← hpre]
      rfl

/-- A command that ESC `]` begins is removed as a whole exactly when it is rejoined. -/
theorem marks_command_iff {bytes behind : Bytes} (h : Closed bytes) {rest : List Bool} :
    marks (pieces byteControls (0x1b :: 0x5d :: (bytes ++ behind))) =
        List.replicate (0x1b :: 0x5d :: bytes).length false ++ rest ↔
      rejoined (0x1b :: 0x5d :: bytes) = true ∧ marks (pieces byteControls behind) = rest := by
  have hsome := h.isSome behind
  have hbracket : (sequenceEnd byteControls (0x5d :: (bytes ++ behind))).isSome = true := by
    rw [sequenceEnd_cons (by decide) (by decide) (by simp)]
    simpa using hsome
  have hintro : introducer byteControls (0x1b :: 0x5d :: (bytes ++ behind)) = some 2 := rfl
  have hwhole : (sequenceEnd byteControls (0x1b :: 0x5d :: (bytes ++ behind))).isSome = true := by
    rw [sequenceEnd_cons (by decide) (by decide) (by simp)]
    simpa using hbracket
  have hrejoined : rejoined (0x1b :: 0x5d :: bytes) = rejoined bytes := by simp [rejoined]
  rw [marks_eq_insideMarks hintro hwhole,
    insideMarks_cons (by decide) (by decide) (by simp) hbracket,
    insideMarks_cons (by decide) (by decide) (by simp) hsome, hrejoined, ← insideMarks_eq_iff h]
  simp [replicate_succ]

/-- **The scanner marks as the characters have it exactly when the text is calm.** -/
theorem marks_eq_iff_calm (h : ∀ char ∈ chars, IsSequence char) :
    marks (pieces byteControls chars.flatten) =
        marks ((pieces charControls chars).map Piece.flatten) ↔
      calm ((pieces charControls chars).map Piece.flatten) = true := by
  induction hlength : chars.length using Nat.strong_induction_on generalizing chars with
  | _ length ih =>
    have hsymbols : ∀ later : List Bytes,
        ((pieces charControls later).map Piece.flatten).flatMap Piece.symbols = later.flatten := by
      intro later
      rw [flatMap_symbols_flatten, flatMap_symbols_pieces]
    rcases chars with _ | ⟨char, rest⟩
    · simp [marks, calm]
    obtain ⟨hchar, hrest⟩ := forall_mem_cons.mp h
    rcases hintro : introducer charControls (char :: rest) with _ | width
    · have hih := ih rest.length (by simp [← hlength]) hrest rfl
      have hmarks : marks ((Piece.kept [char]).flatten ::
          (pieces charControls rest).map Piece.flatten) = List.replicate char.length true ++
            marks ((pieces charControls rest).map Piece.flatten) := by
        simp [marks, Piece.flatten, Piece.marks]
      rw [pieces_kept hintro, map_cons, hmarks, flatten_cons, marks_eq_iff_quiet, hih,
        Piece.flatten, calm, hsymbols, Bool.and_eq_true]
      simp
    rcases hend : sequenceEnd charControls ((char :: rest).drop width) with _ | n
    · have hquiet := @marks_eq_iff_quiet (char :: rest).flatten [] []
      simp only [append_nil, pieces_nil] at hquiet
      rw [pieces_open hintro hend, map_cons, map_nil, Piece.flatten, calm, calm]
      simpa [marks, Piece.marks] using hquiet
    have hpos := (introducer_pos hintro).1
    have hless : ((char :: rest).drop (width + n)).length < length := by
      rw [← hlength, length_drop, length_cons]
      omega
    have hih := ih _ hless (fun part hpart => h part (mem_of_mem_drop hpart)) rfl
    have hmarks : ∀ symbols : List Bytes, ∀ later : List (Piece UInt8),
        marks ((Piece.removed symbols).flatten :: later) =
          List.replicate symbols.flatten.length false ++ marks later := fun _ _ => rfl
    rw [pieces_removed hintro hend, map_cons, hmarks, Piece.flatten, calm]
    rw [introducer] at hintro
    split_ifs at hintro with hosc hesc
    · -- the first byte of the introducer is not one for the scanner
      cases hintro
      obtain rfl : char = [0xc2, 0x9d] := hosc
      have hkept : introducer byteControls (0xc2 :: 0x9d :: rest.flatten) = none := rfl
      rw [flatten_cons, cons_append, cons_append, nil_append,
        marks_kept hkept, Nat.add_comm 1 n, take_succ_cons]
      simp [replicate_succ]
    · cases hintro
      obtain ⟨rfl, hbracket⟩ := hesc
      obtain ⟨later, rfl⟩ := head?_eq_some_iff.mp hbracket
      have hlater : ∀ part ∈ later, IsSequence part := fun part hpart =>
        hrest part (mem_cons_of_mem _ hpart)
      have hclosed := closed_of_sequenceEnd hlater hend
      have hdrop : ((charControls.esc :: charControls.bracket :: later).drop (2 + n)) =
          later.drop n := by rw [Nat.add_comm]; rfl
      have htake : ((charControls.esc :: charControls.bracket :: later).take
          (2 + n)).flatten = 0x1b :: 0x5d :: (later.take n).flatten := by
        rw [Nat.add_comm]; rfl
      have htext : (charControls.esc :: charControls.bracket :: later).flatten =
          0x1b :: 0x5d :: ((later.take n).flatten ++ (later.drop n).flatten) := by
        rw [← flatten_append, take_append_drop]
        rfl
      rw [hdrop] at hih ⊢
      rw [htake, htext, marks_command_iff hclosed, hih]
      simp

end Characters

/-! ### Validity and removal -/

/-- What is taken out as the characters have it leaves valid text. -/
theorem utf8Valid_commands (h : utf8Valid text = true) :
    utf8Valid ((commands text).flatMap Piece.output) = true := by
  rw [commands, flatMap_output_flatten]
  have hkept : ∀ char ∈ (pieces charControls (sequences text)).flatMap Piece.output,
      IsSequence char := fun char hchar => isSequence_of_mem h char (mem_of_mem_output hchar)
  rw [← append_nil (List.flatten _), utf8Valid_flatten hkept]
  rfl

theorem Strips.of_marks (h : utf8Valid text = true)
    (hmarks : marks (pieces byteControls text) = marks (commands text)) : Strips text := by
  have hsymbols : (commands text).flatMap Piece.symbols = text := by
    rw [commands, flatMap_symbols_flatten, flatMap_symbols_pieces, flatten_sequences]
  have houtput : stripOSCSequences text = (commands text).flatMap Piece.output := by
    rw [stripOSCSequences, output_eq_select, output_eq_select, flatMap_symbols_pieces, hsymbols,
      hmarks]
  refine ⟨hmarks, ?_, fun hplain => ?_⟩
  · rw [houtput]
    exact utf8Valid_commands h
  · have hchars : ∀ char ∈ sequences text, char ≠ charControls.osc ∧ char ≠ charControls.esc := by
      intro char hchar
      refine ⟨?_, (hplain char hchar).1⟩
      rintro rfl
      exact (hplain _ hchar).2 ⟨0x9d, rfl, by decide, by decide⟩
    rw [houtput, commands, flatMap_output_flatten, output_of_plain hchars, flatten_sequences]

/-- **Exactly the complete commands are taken out of a valid text if and only if it is calm**:
outside of them no byte 0x9D and no ESC `]` has a BEL, a byte 0x9C or an ESC `\` behind it, none of
them begins with U+009D, and in them each byte 0x9C but the last byte is directly followed by a byte
0x9D or by ESC `]`. -/
theorem strips_iff_calm (text : Bytes) (h : utf8Valid text = true) :
    Strips text ↔ calm (commands text) = true := by
  have hiff := marks_eq_iff_calm fun char hchar => isSequence_of_mem h char hchar
  rw [flatten_sequences] at hiff
  constructor
  · intro hstrips
    exact hiff.mp hstrips.exact
  · intro hcalm
    exact .of_marks h (hiff.mpr hcalm)

/-- A hyperlink, with a typographic quotation mark as its text. -/
def hyperlink : Bytes :=
  [0x1b, 0x5d, 0x38, 0x3b, 0x3b, 0x61, 0x07, 0xe2, 0x80, 0x9c, 0x1b, 0x5d, 0x38, 0x3b, 0x3b, 0x07]

theorem strips_hyperlink : utf8Valid hyperlink = true ∧ Strips hyperlink :=
  ⟨by decide, (strips_iff_calm hyperlink (by decide)).mpr (by decide)⟩

/-- Two quotation marks, ” and “, of which the bytes 0x9D 0xE2 0x80 0x9C are taken out. -/
theorem quotationMarks_not_strips :
    utf8Valid [0xe2, 0x80, 0x9d, 0xe2, 0x80, 0x9c] = true ∧
      stripOSCSequences [0xe2, 0x80, 0x9d, 0xe2, 0x80, 0x9c] = [0xe2, 0x80] ∧
      ¬Strips [0xe2, 0x80, 0x9d, 0xe2, 0x80, 0x9c] :=
  ⟨by decide, by decide, fun h => absurd h.valid (by decide)⟩

end Carcer.Tui
