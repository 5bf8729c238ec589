import Carcer.Provenance.Planning

/-!
# JSON in ASCII

`asciiJSON` and its two copies spell the characters of a JSON text that are outside of ASCII as `\u`
escapes. Such characters stand only inside of strings, where the escapes are read as the characters.

## Main definitions

* `SpelledAs`: a text beside its spelling in ASCII
* `Carries`: what is read off a text is read off its spelling

## Main results

* `carries_value`: a text and its spelling are read as the same value
* `asciiJSON_sound`: what the functions return is ASCII and is read as the same value
-/

namespace Carcer.Provenance

open Carcer.Wire Carcer.Json List

/-- `forensicASCIIJSON`, which has the body of `asciiJSON`. -/
def forensicASCIIJSON : Bytes → Bytes := asciiJSON

/-- `hardwareASCIIJSON`, which has the body of `asciiJSON`. -/
def hardwareASCIIJSON : Bytes → Bytes := asciiJSON

/-! ### Characters outside of ASCII -/

theorem pair_eq {r : ℕ} (h : 0xffff < r) : 0x10000 +
    (0xd800 + (r - 0x10000) / 0x400 - 0xd800) * 1024 +
      (0xdc00 + (r - 0x10000) % 0x400 - 0xdc00) = r := by
  omega

theorem unicodeEscape_pair {high low : ℕ} (hhigh : 0xd800 ≤ high ∧ high < 0xdc00)
    (hlow : 0xdc00 ≤ low ∧ low ≤ 0xdfff) (rest : Bytes) :
    unicodeEscape high (unicodeText low ++ rest) =
      (0x10000 + (high - 0xd800) * 1024 + (low - 0xdc00), rest) := by
  have hfirst : isSurrogate high = true := by
    simp only [isSurrogate, decide_eq_true_eq]
    omega
  simp only [unicodeEscape, if_pos hfirst, unicodeText, cons_append, nil_append]
  rw [hex4_unicodeText (by omega)]
  exact if_pos ⟨hhigh.2, hlow⟩

section Runes

variable {bytes : Bytes} (h : IsSequence bytes) (hlong : ∀ byte, bytes ≠ [byte])
include h hlong

theorem rune_of_long : 0x80 ≤ rune bytes := by
  by_contra hlt
  have hbytes := encodeRune_rune h
  rw [encodeRune, if_pos (by omega)] at hbytes
  exact hlong _ hbytes.symm

/-- The first code unit that is written is no second half of a pair. -/
theorem asciiRune_begins : ∃ unit behind, asciiRune bytes = unicodeText unit ++ behind ∧
    unit < 0x10000 ∧ ¬(0xdc00 ≤ unit ∧ unit ≤ 0xdfff) := by
  have hlow := rune_of_long h hlong
  obtain ⟨hhigh, hrune⟩ := rune_valid h
  rw [isSurrogate_eq_false] at hrune
  simp only [asciiRune, if_neg (Nat.not_lt.mpr hlow)]
  split_ifs with hplane
  · exact ⟨_, [], (append_nil _).symm, by omega, by omega⟩
  · exact ⟨_, _, rfl, by omega, by omega⟩

/-- **The escapes of a character are read as the character.** -/
theorem stringBody_asciiRune (fuel : ℕ) (rest : Bytes) :
    stringBody (fuel + 1) (asciiRune bytes ++ rest) =
      (stringBody fuel rest).map fun body => (bytes ++ body.1, body.2) := by
  have hlow := rune_of_long h hlong
  obtain ⟨hhigh, hrune⟩ := rune_valid h
  simp only [asciiRune, if_neg (Nat.not_lt.mpr hlow)]
  split_ifs with hplane
  · rw [stringBody_unicodeText (by omega) hrune, encodeRune_rune h]
  -- the second escape completes the pair
  rw [append_assoc, stringBody_unit (by omega), unicodeEscape_pair (by omega) (by omega),
    pair_eq (by omega), encodeRune_rune h]

end Runes

/-! ### A text and its spelling -/

/-- A text in UTF-8 beside its spelling in ASCII. -/
inductive SpelledAs : Bytes → Bytes → Prop
  | nil : SpelledAs [] []
  | byte {byte text spelled} (hbyte : byte < 0x80) (h : SpelledAs text spelled) :
    SpelledAs (byte :: text) (byte :: spelled)
  | long {bytes text spelled} (hbytes : IsSequence bytes) (hlong : ∀ byte, bytes ≠ [byte])
    (h : SpelledAs text spelled) : SpelledAs (bytes ++ text) (asciiRune bytes ++ spelled)

variable {text spelled : Bytes}

theorem spelledAs_asciiJSON (h : utf8Valid text = true) : SpelledAs text (asciiJSON text) := by
  have hparts : ∀ parts : List Bytes, (∀ part ∈ parts, IsSequence part) →
      SpelledAs parts.flatten (parts.flatMap asciiRune) := by
    intro parts hparts
    induction parts with
    | nil => exact .nil
    | cons part parts ih =>
      obtain ⟨hpart, hrest⟩ := forall_mem_cons.mp hparts
      rw [flatten_cons, flatMap_cons]
      by_cases hlong : ∀ byte, part ≠ [byte]
      · exact .long hpart hlong (ih hrest)
      obtain ⟨byte, rfl⟩ : ∃ byte, part = [byte] := by simpa using hlong
      have hbyte := hpart.lt_of_singleton
      have hlt : byte.toNat < 0x80 := UInt8.lt_iff_toNat_lt.mp hbyte
      have hspelled : asciiRune [byte] = [byte] := by simp [asciiRune, rune, hbyte, hlt]
      rw [hspelled]
      exact .byte hbyte (ih hrest)
  have hspelled := hparts _ (isSequence_of_mem h)
  rwa [flatten_sequences] at hspelled

/-- A text and its spelling are at their ends, or begin with the same byte, or with a character and
its escape. -/
theorem SpelledAs.step (h : SpelledAs text spelled) :
    (text = [] ∧ spelled = []) ∨
    (∃ byte text' spelled', text = byte :: text' ∧ spelled = byte :: spelled' ∧
      SpelledAs text' spelled') ∨
    ∃ first rest tail unit behind, 0x80 ≤ first ∧ text = first :: rest ∧
      spelled = 0x5c :: 0x75 :: tail ∧ hex4 tail = some (unit, behind) ∧
      ¬(0xdc00 ≤ unit ∧ unit ≤ 0xdfff) := by
  cases h with
  | nil => exact .inl ⟨rfl, rfl⟩
  | byte hbyte h => exact .inr (.inl ⟨_, _, _, rfl, rfl, h⟩)
  | @long bytes text spelled hbytes hlong h =>
    obtain ⟨unit, behind, hrune, hunit, hlow⟩ := asciiRune_begins hbytes hlong
    obtain ⟨first, rest, rfl⟩ := exists_cons_of_ne_nil hbytes.ne_nil
    refine .inr (.inr ⟨first, _, _, unit, _, hbytes.high_of_long hlong first mem_cons_self, rfl, ?_,
      hex4_unicodeText hunit (behind ++ spelled), hlow⟩)
    rw [hrune, append_assoc]
    rfl

theorem SpelledAs.of_cons {byte : UInt8} {rest : Bytes} (h : SpelledAs text spelled)
    (htext : text = byte :: rest) (hbyte : byte < 0x80) :
    ∃ behind, spelled = byte :: behind ∧ SpelledAs rest behind := by
  rcases h.step with ⟨rfl, -⟩ | ⟨_, _, behind, rfl, rfl, hbehind⟩ |
    ⟨_, _, _, _, _, hhigh, rfl, -⟩ <;> cases htext
  · exact ⟨behind, rfl, hbehind⟩
  · exact absurd hbyte (UInt8.not_lt.mpr hhigh)

theorem SpelledAs.not_cons {byte : UInt8} (h : SpelledAs text spelled)
    (htext : ∀ rest, text ≠ byte :: rest) (hbyte : byte ≠ 0x5c) (rest : Bytes) :
    spelled ≠ byte :: rest := by
  rintro rfl
  rcases h.step with ⟨-, heq⟩ | ⟨_, text, _, rfl, heq, -⟩ | ⟨_, _, _, _, _, -, -, heq, -⟩ <;>
    cases heq
  · exact htext text rfl
  · exact hbyte rfl

theorem SpelledAs.of_append (part : Bytes) (h : SpelledAs (part ++ text) spelled)
    (hpart : ∀ byte ∈ part, byte < 0x80) :
    ∃ behind, spelled = part ++ behind ∧ SpelledAs text behind := by
  induction part generalizing spelled with
  | nil => exact ⟨spelled, rfl, h⟩
  | cons byte part ih =>
    obtain ⟨hbyte, hpart⟩ := forall_mem_cons.mp hpart
    obtain ⟨behind, rfl, hrest⟩ := h.of_cons rfl hbyte
    obtain ⟨behind, rfl, hbehind⟩ := ih hrest hpart
    exact ⟨behind, rfl, hbehind⟩

theorem SpelledAs.ascii (h : SpelledAs text spelled) : ∀ byte ∈ spelled, byte < 0x80 := by
  induction h with
  | nil => simp
  | byte hbyte _ ih => exact forall_mem_cons.mpr ⟨hbyte, ih⟩
  | @long bytes _ _ hbytes hlong _ ih =>
    refine forall_mem_append.mpr ⟨?_, ih⟩
    have hlow := rune_of_long hbytes hlong
    simp only [asciiRune, if_neg (Nat.not_lt.mpr hlow)]
    split_ifs
    · exact unicodeText_ascii _
    · exact forall_mem_append.mpr ⟨unicodeText_ascii _, unicodeText_ascii _⟩

theorem SpelledAs.length_le (h : SpelledAs text spelled) : text.length ≤ spelled.length := by
  induction h with
  | nil => exact le_rfl
  | byte _ _ ih => exact Nat.succ_le_succ ih
  | @long bytes _ _ hbytes hlong _ ih =>
    obtain ⟨unit, behind, hrune, -⟩ := asciiRune_begins hbytes hlong
    have hlength : bytes.length ≤ 4 := by
      rcases hbytes.cases with ⟨_, rfl, -⟩ | ⟨_, _, rfl, -⟩ | ⟨_, _, _, rfl, -⟩ |
        ⟨_, _, _, _, rfl, -⟩ <;> simp
    simp only [hrune, unicodeText, length_append, length_cons]
    omega

theorem SpelledAs.skipBlank (h : SpelledAs text spelled) :
    SpelledAs (skipBlank text) (skipBlank spelled) := by
  induction h with
  | nil => exact .nil
  | @byte byte text spelled hbyte h ih =>
    by_cases hblank : isBlank byte = true
    · simpa [Json.skipBlank, hblank] using ih
    · simpa [Json.skipBlank, hblank] using .byte hbyte h
  | @long bytes text spelled hbytes hlong h _ =>
    -- neither begins with a blank
    obtain ⟨unit, behind, hrune, -⟩ := asciiRune_begins hbytes hlong
    have hspelled : Json.skipBlank (asciiRune bytes ++ spelled) = asciiRune bytes ++ spelled := by
      rw [hrune]
      exact skipBlank_cons (by decide) _
    obtain ⟨first, rest, rfl⟩ := exists_cons_of_ne_nil hbytes.ne_nil
    have hhigh := hbytes.high_of_long hlong first mem_cons_self
    have hblank : isBlank first = false :=
      Bool.eq_false_iff.mpr fun hblank => absurd (isBlank_lt hblank) (UInt8.not_lt.mpr hhigh)
    rw [hspelled, cons_append, skipBlank_cons hblank]
    exact .long hbytes hlong h

/-! ### What is read -/

/-- What `read` reads off a text, `read'` reads off its spelling. -/
def Carries {α : Type} (read read' : Bytes → Option (α × Bytes)) : Prop :=
  ∀ {text spelled a left}, SpelledAs text spelled → read text = some (a, left) →
    ∃ behind, SpelledAs left behind ∧ read' spelled = some (a, behind)

theorem Carries.map {α β : Type} {read read' : Bytes → Option (α × Bytes)}
    (h : Carries read read') (f : α → β) :
    Carries (fun text => (read text).map fun r => (f r.1, r.2))
      fun text => (read' text).map fun r => (f r.1, r.2) := by
  intro text spelled b left hspelled hmap
  obtain ⟨⟨a, rest⟩, ha, heq⟩ := Option.map_eq_some_iff.mp hmap
  cases heq
  obtain ⟨behind, hleft, ha'⟩ := h hspelled ha
  refine ⟨behind, hleft, ?_⟩
  simp only [ha', Option.map_some]

theorem word_carries {word : Bytes} {v : Value} (hword : ∀ byte ∈ word, byte < 0x80)
    (hscalar : ∀ rest, scalar (word ++ rest) = some (v, rest)) {left : Bytes}
    (h : SpelledAs text spelled) (hread : takeWord word text = some left) :
    ∃ behind, SpelledAs left behind ∧ scalar spelled = some (v, behind) := by
  unfold takeWord at hread
  split_ifs at hread with hprefix
  obtain ⟨rest, rfl⟩ := isPrefixOf_iff_prefix.mp hprefix
  rw [drop_left] at hread
  cases hread
  obtain ⟨behind, rfl, hbehind⟩ := h.of_append word hword
  exact ⟨behind, hbehind, hscalar behind⟩

theorem lt_of_isNumeric {byte : UInt8} (h : isNumeric byte = true) : byte < 0x80 := by
  simp only [isNumeric, isDigit, decide_eq_true_eq] at h
  rcases h with ⟨-, hhigh⟩ | rfl | rfl | rfl | rfl | rfl
  · exact UInt8.lt_of_le_of_lt hhigh (by decide)
  all_goals decide

theorem scalar_carries : Carries scalar scalar := by
  intro text spelled v left h hread
  unfold scalar at hread
  split at hread
  · rename_i hword
    cases hread
    exact word_carries (by simp [ascii_words]) (fun rest => (scalar_words rest).1) h hword
  split at hread
  · rename_i hword
    cases hread
    exact word_carries (by simp [ascii_words]) (fun rest => (scalar_words rest).2.1) h hword
  split at hread
  · rename_i hword
    cases hread
    exact word_carries (by simp [ascii_words]) (fun rest => (scalar_words rest).2.2) h hword
  obtain ⟨⟨literal, rest⟩, hnumber, heq⟩ := Option.map_eq_some_iff.mp hread
  cases heq
  obtain ⟨-, hreads⟩ := numberText_reads hnumber
  rw [hreads.text_eq] at h
  obtain ⟨behind, rfl, hbehind⟩ := h.of_append literal fun byte hbyte =>
    lt_of_isNumeric (hreads.numeric byte hbyte)
  refine ⟨behind, hbehind, scalar_of_numberText (hreads.again behind ?_)⟩
  -- the number ends where it did: the same byte or a backslash follows
  rcases hbehind.step with ⟨rfl, rfl⟩ | ⟨_, _, _, rfl, rfl, -⟩ | ⟨_, _, _, _, _, -, -, rfl, -⟩
  · exact .inr rfl
  · exact .inr rfl
  · exact .inl (stops_cons (by decide))

theorem hexValue_lt {byte : UInt8} {n : ℕ} (h : hexValue byte = some n) : byte < 0x80 := by
  unfold hexValue at h
  split_ifs at h with hdigit hlower hupper
  · exact UInt8.lt_of_le_of_lt hdigit.2 (by decide)
  · exact UInt8.lt_of_le_of_lt hlower.2 (by decide)
  · exact UInt8.lt_of_le_of_lt hupper.2 (by decide)

theorem hex4_carries : Carries hex4 hex4 := by
  intro text spelled unit left h hread
  unfold hex4 at hread
  split at hread
  · rename_i a b c d rest
    simp only [Option.bind_eq_bind, Option.bind_eq_some_iff] at hread
    obtain ⟨w, ha, x, hb, y, hc, z, hd, hread⟩ := hread
    cases hread
    obtain ⟨behind, rfl, hbehind⟩ := h.of_append [a, b, c, d] (by
      simp [hexValue_lt ha, hexValue_lt hb, hexValue_lt hc, hexValue_lt hd])
    exact ⟨behind, hbehind, by simp [hex4, ha, hb, hc, hd]⟩
  · cases hread

theorem unicodeEscape_other (unit : ℕ) (h : ∀ second, text ≠ 0x5c :: 0x75 :: second) :
    unicodeEscape unit text = (if isSurrogate unit then 0xfffd else unit, text) := by
  unfold unicodeEscape
  split_ifs
  · split
    · exact absurd rfl (h _)
    · rfl
  · rfl

/-- An escape takes the next one to complete a pair in a text if it does in its spelling. -/
theorem unicodeEscape_carries (unit : ℕ) (h : SpelledAs text spelled)
    (hhex : ∀ second, text = 0x5c :: 0x75 :: second → hex4 second ≠ none) :
    ∃ behind, SpelledAs (unicodeEscape unit text).2 behind ∧
      unicodeEscape unit spelled = ((unicodeEscape unit text).1, behind) := by
  by_cases hescape : ∃ second, text = 0x5c :: 0x75 :: second
  · obtain ⟨second, rfl⟩ := hescape
    obtain ⟨⟨low, left⟩, hlow⟩ := Option.ne_none_iff_exists'.mp (hhex second rfl)
    obtain ⟨behind, rfl, hbehind⟩ := h.of_append [0x5c, 0x75] (by simp)
    obtain ⟨behind', hleft, hlow'⟩ := hex4_carries hbehind hlow
    simp only [unicodeEscape, cons_append, nil_append, hlow, hlow']
    split_ifs
    · exact ⟨behind', hleft, rfl⟩
    all_goals exact ⟨_, h, rfl⟩
  have hother : ∀ second, text ≠ 0x5c :: 0x75 :: second := fun second heq => hescape ⟨second, heq⟩
  rw [unicodeEscape_other unit hother]
  refine ⟨spelled, h, ?_⟩
  rcases h.step with ⟨rfl, rfl⟩ | ⟨byte, text, spelled, rfl, rfl, hrest⟩ |
    ⟨_, _, tail, low, behind, -, -, rfl, hlow, hnot⟩
  · exact unicodeEscape_other unit hother
  · refine unicodeEscape_other unit fun second heq => ?_
    cases heq
    exact hrest.not_cons (fun rest heq => hother rest (by rw [heq])) (by decide) _ rfl
  · -- the escape of a character is no second half
    simp only [unicodeEscape, hlow]
    split_ifs with hsurrogate hpair
    · exact absurd hpair.2 hnot
    all_goals rfl

section Strings

variable {fuel fuel' : ℕ} (ih : Carries (stringBody fuel) (stringBody fuel'))
include ih

theorem backslash_carries {body left : Bytes} (h : SpelledAs text spelled)
    (hread : stringBody (fuel + 1) (0x5c :: text) = some (body, left)) :
    ∃ behind, SpelledAs left behind ∧
      stringBody (fuel' + 1) (0x5c :: spelled) = some (body, behind) := by
  have hnone : ∀ kind rest, kind ≠ 0x75 → unescape kind = none →
      stringBody (fuel + 1) (0x5c :: kind :: rest) = none := by
    intro kind rest hkind hunescape
    simp [stringBody, hkind, hunescape]
  rcases h.step with ⟨rfl, rfl⟩ | ⟨kind, text, spelled, rfl, rfl, hrest⟩ |
    ⟨first, rest, _, _, _, hhigh, rfl, -⟩
  · simp [stringBody] at hread
  · by_cases hkind : kind = 0x75
    · subst hkind
      rw [stringBody_backslash_u] at hread ⊢
      obtain ⟨⟨unit, rest⟩, hhex, hread⟩ := Option.bind_eq_some_iff.mp hread
      obtain ⟨behind, hbehind, hhex'⟩ := hex4_carries hrest hhex
      rw [hhex', Option.bind_some]
      obtain ⟨behind', hleft, hescape⟩ := unicodeEscape_carries unit hbehind (by
        -- an escape that is not complete is not read
        rintro second rfl hsecond
        have hstuck : (unicodeEscape unit (0x5c :: 0x75 :: second)).2 = 0x5c :: 0x75 :: second := by
          simp only [unicodeEscape, hsecond]
          split_ifs <;> rfl
        have hbody : stringBody fuel (0x5c :: 0x75 :: second) = none := by
          obtain _ | fuel := fuel
          · rfl
          · rw [stringBody_backslash_u, hsecond, Option.bind_none]
        simp [hstuck, hbody] at hread)
      rw [hescape]
      exact ih.map (_ ++ ·) hleft hread
    · cases hunescape : unescape kind with
      | none =>
        rw [hnone _ _ hkind hunescape] at hread
        cases hread
      | some byte =>
        rw [stringBody_backslash _ hkind hunescape] at hread ⊢
        exact ih.map (byte :: ·) hrest hread
  · -- a character outside of ASCII is never escaped
    have hunescape : unescape first = none := by
      unfold unescape
      split
      case h_9 => rfl
      all_goals exact absurd hhigh (by decide)
    rw [hnone _ _ (by rintro rfl; exact absurd hhigh (by decide)) hunescape] at hread
    cases hread

end Strings

theorem stringBody_carries {fuel fuel' : ℕ} (hfuel : fuel ≤ fuel') :
    Carries (stringBody fuel) (stringBody fuel') := by
  -- a character and its escapes take one step each
  induction fuel generalizing fuel' with
  | zero =>
    intro text spelled body left _ hread
    cases hread
  | succ fuel ih =>
    obtain _ | fuel' := fuel'
    · omega
    have ih : Carries (stringBody fuel) (stringBody fuel') := ih (by omega)
    intro text spelled body left h hread
    cases h with
    | nil => cases hread
    | long hbytes hlong h =>
      rw [stringBody_long hbytes hlong] at hread
      rw [stringBody_asciiRune hbytes hlong]
      exact ih.map (_ ++ ·) h hread
    | @byte byte text spelled hbyte h =>
      by_cases hquote : byte = 0x22
      · subst hquote
        simp only [stringBody, if_true] at hread ⊢
        cases hread
        exact ⟨spelled, h, rfl⟩
      by_cases hbackslash : byte = 0x5c
      · subst hbackslash
        exact backslash_carries ih h hread
      by_cases hcontrol : byte < 0x20
      · simp [stringBody, hquote, hbackslash, hcontrol] at hread
      have hplain := fun fuel => stringBody_sequence fuel hquote hbackslash hcontrol
        (isSequence_singleton hbyte)
      rw [← singleton_append, hplain] at hread
      rw [← singleton_append, hplain]
      exact ih.map ([byte] ++ ·) h hread

theorem quoted_carries : Carries quoted quoted := by
  intro text spelled body left h hread
  unfold quoted at hread
  split at hread
  · obtain ⟨behind, rfl, hbehind⟩ := h.of_cons rfl (by decide)
    exact stringBody_carries hbehind.length_le hbehind hread
  · cases hread

section Steps

variable {fuel fuel' depth : ℕ}

theorem elements_carries (hvalue : Carries (value fuel depth) (value fuel' depth))
    (helements : Carries (elements fuel depth) (elements fuel' depth)) :
    Carries (elements (fuel + 1) depth) (elements (fuel' + 1) depth) := by
  intro text spelled items left h hread
  rw [elements] at hread ⊢
  obtain ⟨⟨item, rest⟩, hitem, hread⟩ := Option.bind_eq_some_iff.mp hread
  obtain ⟨behind, hrest, hitem⟩ := hvalue h hitem
  have hrest := hrest.skipBlank
  simp only [hitem, Option.bind_eq_bind, Option.bind_some] at hread ⊢
  split at hread
  · rename_i heq
    obtain ⟨behind, hbehind, hrest⟩ := hrest.of_cons heq (by decide)
    obtain ⟨⟨items, rest⟩, hitems, hread⟩ := Option.bind_eq_some_iff.mp hread
    cases hread
    obtain ⟨behind, hleft, hitems⟩ := helements hrest hitems
    simp only [hbehind, hitems]
    exact ⟨behind, hleft, rfl⟩
  · rename_i heq
    obtain ⟨behind, hbehind, hleft⟩ := hrest.of_cons heq (by decide)
    cases hread
    simp only [hbehind]
    exact ⟨behind, hleft, rfl⟩
  · cases hread

theorem pairs_carries (hvalue : Carries (value fuel depth) (value fuel' depth))
    (hpairs : Carries (pairs fuel depth) (pairs fuel' depth)) :
    Carries (pairs (fuel + 1) depth) (pairs (fuel' + 1) depth) := by
  intro text spelled members left h hread
  rw [pairs] at hread ⊢
  obtain ⟨⟨name, rest⟩, hname, hread⟩ := Option.bind_eq_some_iff.mp hread
  obtain ⟨behind, hrest, hname⟩ := quoted_carries h.skipBlank hname
  have hrest := hrest.skipBlank
  simp only [hname, Option.bind_eq_bind, Option.bind_some] at hread ⊢
  split at hread
  · rename_i heq
    obtain ⟨behind, hbehind, hrest⟩ := hrest.of_cons heq (by decide)
    obtain ⟨⟨item, rest⟩, hitem, hread⟩ := Option.bind_eq_some_iff.mp hread
    obtain ⟨behind', hrest, hitem⟩ := hvalue hrest hitem
    have hrest := hrest.skipBlank
    simp only [hbehind, hitem, Option.bind_some] at hread ⊢
    split at hread
    · rename_i heq
      obtain ⟨behind, hbehind, hrest⟩ := hrest.of_cons heq (by decide)
      obtain ⟨⟨members, rest⟩, hmembers, hread⟩ := Option.bind_eq_some_iff.mp hread
      cases hread
      obtain ⟨behind, hleft, hmembers⟩ := hpairs hrest hmembers
      simp only [hbehind, hmembers]
      exact ⟨behind, hleft, rfl⟩
    · rename_i heq
      obtain ⟨behind, hbehind, hleft⟩ := hrest.of_cons heq (by decide)
      cases hread
      simp only [hbehind]
      exact ⟨behind, hleft, rfl⟩
    · cases hread
  · cases hread

theorem value_carries (ih : ∀ depth, Carries (elements fuel depth) (elements fuel' depth) ∧
      Carries (pairs fuel depth) (pairs fuel' depth)) :
    Carries (value (fuel + 1) depth) (value (fuel' + 1) depth) := by
  intro text spelled v left h hread
  have h := h.skipBlank
  rw [value] at hread ⊢
  generalize skipBlank text = text at h hread
  generalize skipBlank spelled = spelled at h ⊢
  split at hread
  · have hquoted := quoted_carries.map Value.string h hread
    obtain ⟨behind, rfl, -⟩ := h.of_cons rfl (by decide)
    exact hquoted
  -- an array and an object
  iterate 2
    obtain ⟨behind, rfl, hrest⟩ := h.of_cons rfl (by decide)
    obtain _ | depth := depth
    · cases hread
    have hrest := hrest.skipBlank
    simp only at hread ⊢
    split at hread
    · rename_i heq
      obtain ⟨behind, hbehind, hleft⟩ := hrest.of_cons heq (by decide)
      cases hread
      rw [hbehind]
      exact ⟨behind, hleft, rfl⟩
    rename_i hopen
    split
    · exact absurd ‹_› (hrest.not_cons hopen (by decide) _)
    obtain ⟨helements, hpairs⟩ := ih depth
    first
    | exact helements.map Value.array hrest hread
    | exact hpairs.map Value.object hrest hread
  · rename_i hstring harray hobject
    obtain ⟨behind, hleft, hscalar⟩ := scalar_carries h hread
    refine ⟨behind, hleft, ?_⟩
    split
    · exact absurd rfl (h.not_cons hstring (by decide) _)
    · exact absurd rfl (h.not_cons harray (by decide) _)
    · exact absurd rfl (h.not_cons hobject (by decide) _)
    · exact hscalar

end Steps

/-- **A text and its spelling are read as the same value.** -/
theorem carries_value {fuel fuel' : ℕ} (hfuel : fuel ≤ fuel') (depth : ℕ) :
    Carries (value fuel depth) (value fuel' depth) ∧
    Carries (elements fuel depth) (elements fuel' depth) ∧
    Carries (pairs fuel depth) (pairs fuel' depth) := by
  induction fuel generalizing fuel' depth with
  | zero =>
    refine ⟨?_, ?_, ?_⟩
    all_goals
      intro text spelled a left _ hread
      cases hread
  | succ fuel ih =>
    obtain _ | fuel' := fuel'
    · omega
    have ih := @ih fuel' (by omega)
    obtain ⟨hvalue, helements, hpairs⟩ := ih depth
    exact ⟨value_carries fun depth => (ih depth).2, elements_carries hvalue helements,
      pairs_carries hvalue hpairs⟩

/-! ### Documents -/

theorem SpelledAs.blank (h : SpelledAs text spelled) (htext : Json.skipBlank text = []) :
    Json.skipBlank spelled = [] := by
  have h := h.skipBlank
  rw [htext] at h
  rcases h.step with ⟨-, hspelled⟩ | ⟨_, _, _, heq, -⟩ | ⟨_, _, _, _, _, -, heq, -⟩
  · exact hspelled
  all_goals cases heq

/-- A text is JSON that nests to `depth` and has this value. -/
def Decodes (depth : ℕ) (text : Bytes) (v : Value) : Prop :=
  ∃ fuel rest, value fuel depth text = some (v, rest) ∧ skipBlank rest = []

/-- **The functions spell JSON in ASCII**: what they return for a JSON text is ASCII, has the same
value, of whatever depth, and has a pair of surrogates for a character beyond the first plane. -/
theorem asciiJSON_sound (hutf8 : utf8Valid text = true) :
    ∀ spell ∈ [asciiJSON, forensicASCIIJSON, hardwareASCIIJSON],
      (∀ byte ∈ spell text, byte < 0x80) ∧
      (∀ depth v, Decodes depth text v → Decodes depth (spell text) v) ∧
      (∀ v, parse text = some v → parse (spell text) = some v) ∧
      ∀ before bytes after, text = before ++ (bytes ++ after) → utf8Valid before = true →
        IsSequence bytes → 0xffff < rune bytes → ∃ high low, 0xd800 ≤ high ∧ high ≤ 0xdbff ∧
          0xdc00 ≤ low ∧ low ≤ 0xdfff ∧
          rune bytes = 0x10000 + (high - 0xd800) * 0x400 + (low - 0xdc00) ∧
          spell text = spell before ++ (unicodeText high ++ unicodeText low ++ spell after) := by
  intro spell hspell
  obtain rfl : spell = asciiJSON := by
    simpa [forensicASCIIJSON, hardwareASCIIJSON] using hspell
  have h := spelledAs_asciiJSON hutf8
  refine ⟨h.ascii, ?_, fun v hparse => ?_, ?_⟩
  · rintro depth v ⟨fuel, rest, hvalue, hblank⟩
    obtain ⟨behind, hbehind, hvalue⟩ := (carries_value le_rfl depth).1 h hvalue
    exact ⟨fuel, behind, hvalue, hbehind.blank hblank⟩
  · obtain ⟨⟨_, rest⟩, hfirst, hread⟩ := Option.bind_eq_some_iff.mp hparse
    simp only at hread
    split_ifs at hread with hblank
    cases hread
    -- the spelling is no shorter than the text, so `parse` has the fuel for it
    obtain ⟨behind, hbehind, hvalue⟩ :=
      (carries_value (Nat.mul_le_mul_left 2 h.length_le) maxNestingDepth).1 h hfirst
    rw [parse, first, hvalue]
    exact if_pos (hbehind.blank hblank)
  · rintro before bytes after rfl hbefore hbytes hplane
    have hlast := (rune_valid hbytes).1
    refine ⟨0xd800 + (rune bytes - 0x10000) / 0x400, 0xdc00 + (rune bytes - 0x10000) % 0x400,
      by omega, by omega, by omega, by omega, by omega, ?_⟩
    rw [asciiJSON, sequences_append hbefore, sequences_cons hbytes, flatMap_append, flatMap_cons,
      asciiRune]
    simp only [if_neg (show ¬rune bytes < 0x80 by omega), if_neg (Nat.not_le.mpr hplane)]
    rfl

/-- A face in quotes becomes a pair of escapes, which is read as the face. -/
theorem asciiJSON_sound_face :
    parse (asciiJSON [0x22, 0xf0, 0x9f, 0x98, 0x80, 0x22]) =
      some (.string [0xf0, 0x9f, 0x98, 0x80]) :=
  (asciiJSON_sound (by decide) asciiJSON mem_cons_self).2.2.1 _ rfl

end Carcer.Provenance
