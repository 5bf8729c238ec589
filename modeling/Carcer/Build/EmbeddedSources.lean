import Carcer.Build.Selection
import Carcer.Json.Text

/-!
# The embedded source table

`renderEmbeddedSources` of `internal/build/trusted.go` emits a C file that holds the files of a
snapshot: two arrays for each file and one table. The seed that is built with the file starts
from that table with `files_init`.

## Main definitions

* `ArrayDeclaration`, `TableRow`, `EmbeddedSources`: the declarations of the emitted file
* `byteArray`, `embeddedSources`, `renderEmbeddedSources`: the functions of the source, as
  declarations and as text
* `readEmbeddedSources`: the declarations of a text that has the form of an emitted file
* `EmbeddedSources.initialFiles`: the table that a compiler represents as written

## Main results

* `readEmbeddedSources_render`: the declarations are read back from the emitted text
* `initialFiles_embeddedSources`: the table holds the files of the snapshot, sorted by path
* `generational_fixpoint`: the seed that starts from the table sends the canonical encoding of
  the snapshot for a build
-/

namespace Carcer.Build

open Carcer.Machine Carcer.Wire Carcer.Guest Carcer.Seed List
open Carcer.Json (hexDigit hexValue hexValue_hexDigit takeWord takeWord_append integerText
  integerText_decimal)

/-! ### The emitted file -/

/-- The arrays `embedded_path_%d` and `embedded_content_%d`. -/
inductive ArrayName
  | path (index : ℕ)
  | content (index : ℕ)
  deriving DecidableEq

/-- The name as it is printed. -/
def ArrayName.text : ArrayName → Bytes
  | .path index => ascii "embedded_path_" ++ decimal index
  | .content index => ascii "embedded_content_" ++ decimal index

/-- The declaration of a byte array: `size` is the length between the brackets, when there is
one. -/
structure ArrayDeclaration where
  name : ArrayName
  readOnly : Bool
  size : Option ℕ
  values : Bytes

/-- `byteArray`. An array cannot be empty, so an empty file gets an array of one byte. -/
def byteArray (name : ArrayName) (data : Bytes) (readOnly : Bool) : ArrayDeclaration :=
  if data = [] then ⟨name, readOnly, some 1, [0]⟩ else ⟨name, readOnly, none, data⟩

/-- A byte printed with `0x%02x`. -/
def hexByte (byte : UInt8) : Bytes :=
  ascii "0x" ++ [hexDigit (byte.toNat / 16), hexDigit (byte.toNat % 16)]

/-- The line that `byteArray` returns. -/
def ArrayDeclaration.text (declaration : ArrayDeclaration) : Bytes :=
  ascii (if declaration.readOnly then "static const uint8_t " else "static uint8_t ") ++
    declaration.name.text ++ ascii "[" ++ (declaration.size.map decimal).getD [] ++
    ascii "] = \x7b" ++ (match declaration.size with
      | some _ => ascii "0"
      | none => (ascii ", ").intercalate (declaration.values.map hexByte)) ++ ascii "\x7d;"

/-- A row of `initial_files`: the fields `path`, `path_length`, `data` and `end`, the last one as
an array and an offset into it. -/
structure TableRow where
  path : ArrayName
  pathLength : ℕ
  data : ArrayName
  endArray : ArrayName
  endOffset : ℕ

def TableRow.lines (row : TableRow) : List Bytes :=
  [ascii "    \x7b",
    ascii "        " ++ row.path.text ++ ascii ",",
    ascii "        " ++ decimal row.pathLength ++ ascii "u,",
    ascii "        " ++ row.data.text ++ ascii ",",
    ascii "        " ++ row.endArray.text ++ ascii " + " ++ decimal row.endOffset ++ ascii "u,",
    ascii "    \x7d,"]

/-- The emitted file: its arrays and the rows of its table. -/
structure EmbeddedSources where
  arrays : List ArrayDeclaration
  rows : List TableRow

/-- The text of the emitted file: its lines, each with its end. -/
def EmbeddedSources.text (sources : EmbeddedSources) : Bytes :=
  ([ascii "#include \"files.h\"", []] ++ sources.arrays.map ArrayDeclaration.text ++
    [[], ascii "const struct embedded_file initial_files[] = \x7b"] ++
    sources.rows.flatMap TableRow.lines ++
    [ascii "\x7d;", [],
      ascii "const uint32_t initial_file_count = sizeof(initial_files) / sizeof(initial_files[0]);"]
    ).flatMap (· ++ ascii "\n")

/-- The arrays of the entry at `index`. -/
def entryArrays (entry : SnapshotFile) (index : ℕ) : List ArrayDeclaration :=
  [byteArray (.path index) entry.path true, byteArray (.content index) entry.content false]

/-- The row of the entry at `index`. -/
def entryRow (entry : SnapshotFile) (index : ℕ) : TableRow :=
  ⟨.path index, entry.path.length, .content index, .content index, entry.content.length⟩

/-- The declarations that `renderEmbeddedSources` emits. -/
def embeddedSources (files : List SnapshotFile) : EmbeddedSources :=
  let entries := (sortByPath files).zipIdx
  ⟨entries.flatMap fun (entry, index) => entryArrays entry index,
    entries.map fun (entry, index) => entryRow entry index⟩

def renderEmbeddedSources (files : List SnapshotFile) : Bytes := (embeddedSources files).text

/-! ### Reading the emitted file -/

/-- The words, one behind the other, in front of a text. -/
def takeWords (words : List String) (text : Bytes) : Option Bytes :=
  words.foldlM (fun text word => takeWord (ascii word) text) text

/-- A decimal number in front of a text. -/
def readNumber (text : Bytes) : Option (ℕ × Bytes) := do
  let (digits, text) ← integerText text
  return (decimalValue digits, text)

def readName (text : Bytes) : Option (ArrayName × Bytes) :=
  match takeWord (ascii "embedded_path_") text with
  | some text => do
    let (index, text) ← readNumber text
    return (.path index, text)
  | none => do
    let text ← takeWord (ascii "embedded_content_") text
    let (index, text) ← readNumber text
    return (.content index, text)

/-- A byte of an initialiser: two hexadecimal digits, or a plain zero. -/
def readByte (text : Bytes) : Option (UInt8 × Bytes) := do
  let text ← takeWord (ascii "0") text
  match takeWord (ascii "x") text with
  | some (high :: low :: rest) =>
    let high ← hexValue high
    let low ← hexValue low
    return (UInt8.ofNat (16 * high + low), rest)
  | some _ => none
  | none => return (0, text)

/-- As many items as can be read, in at most `rounds` rounds. -/
def readMany {α : Type} (read : Bytes → Option (α × Bytes)) : ℕ → Bytes → List α × Bytes
  | 0, text => ([], text)
  | rounds + 1, text =>
    match read text with
    | none => ([], text)
    | some (item, text) =>
      let (items, text) := readMany read rounds text
      (item :: items, text)

/-- A byte behind another one. -/
def readNext (text : Bytes) : Option (UInt8 × Bytes) := takeWord (ascii ", ") text >>= readByte

/-- The bytes of an initialiser. -/
def readBytes (text : Bytes) : Option (Bytes × Bytes) := do
  let (value, text) ← readByte text
  let (values, text) := readMany readNext text.length text
  return (value :: values, text)

/-- The declaration of an array, on a line of its own. -/
def readArray (text : Bytes) : Option (ArrayDeclaration × Bytes) := do
  let readOnly := takeWord (ascii "static const uint8_t ") text
  let text ← readOnly <|> takeWord (ascii "static uint8_t ") text
  let (name, text) ← readName text
  let text ← takeWord (ascii "[") text
  let size := readNumber text
  let text ← takeWord (ascii "] = \x7b") ((size.map Prod.snd).getD text)
  let (values, text) ← readBytes text
  let text ← takeWords ["\x7d;", "\n"] text
  return (⟨name, readOnly.isSome, size.map Prod.fst, values⟩, text)

/-- A row of the table, on its six lines. -/
def readRow (text : Bytes) : Option (TableRow × Bytes) := do
  let (path, text) ← takeWords ["    \x7b", "\n", "        "] text >>= readName
  let (pathLength, text) ← takeWords [",", "\n", "        "] text >>= readNumber
  let (data, text) ← takeWords ["u,", "\n", "        "] text >>= readName
  let (endArray, text) ← takeWords [",", "\n", "        "] text >>= readName
  let (endOffset, text) ← takeWords [" + "] text >>= readNumber
  let text ← takeWords ["u,", "\n", "    \x7d,", "\n"] text
  return (⟨path, pathLength, data, endArray, endOffset⟩, text)

/-- **The declarations of an emitted file**, when there is nothing else in it. -/
def readEmbeddedSources (text : Bytes) : Option EmbeddedSources := do
  let text ← takeWords ["#include \"files.h\"", "\n", "\n"] text
  let (arrays, text) := readMany readArray text.length text
  let text ← takeWords ["\n", "const struct embedded_file initial_files[] = \x7b", "\n"] text
  let (rows, text) := readMany readRow text.length text
  let text ← takeWords ["\x7d;", "\n", "\n",
    "const uint32_t initial_file_count = sizeof(initial_files) / sizeof(initial_files[0]);",
    "\n"] text
  if text = [] then some ⟨arrays, rows⟩ else none

section Reading

variable {rest : Bytes}

@[simp] theorem takeWords_nil (text : Bytes) : takeWords [] text = some text := rfl

@[simp] theorem takeWords_cons (word : String) (words : List String) (rest : Bytes) :
    takeWords (word :: words) (ascii word ++ rest) = takeWords words rest := by
  rw [takeWords, foldlM_cons, takeWord_append]
  rfl

/-- The places where another word can stand: neither word begins with the other. -/
def apart : List (String × String) :=
  [("embedded_path_", "embedded_content_"), ("static const uint8_t ", "static uint8_t "),
    ("static const uint8_t ", "\n"), ("static uint8_t ", "\n"), ("x", "\x7d;"), (", ", "\x7d;"),
    ("    \x7b", "\x7d;")]

theorem takeWord_of_apart {word other : String} (h : (word, other) ∈ apart) (rest : Bytes) :
    takeWord (ascii word) (ascii other ++ rest) = none := by
  have hapart : ∀ words ∈ apart,
      ¬ascii words.1 <+: ascii words.2 ∧ ¬ascii words.2 <+: ascii words.1 := by
    decide +kernel
  have hword : ¬ascii word <+: ascii other ++ rest := by
    intro hword
    rcases prefix_or_prefix_of_prefix hword (prefix_append _ rest) with hother | hother
    · exact (hapart _ h).1 hother
    · exact (hapart _ h).2 hother
  rw [takeWord, if_neg (mt isPrefixOf_iff_prefix.mp hword)]

/-- The words that stand behind a number. -/
def numberEnds : List String := [",", "u,", " + ", "[", "] = \x7b"]

theorem stops_numberEnd {word : String} (h : word ∈ numberEnds) (rest : Bytes) :
    Json.Stops (ascii word ++ rest) := by
  have hends : ∀ word ∈ numberEnds, (ascii word).head?.any (fun byte =>
      !Json.isDigit byte && byte != 0x2e && byte != 0x65 && byte != 0x45) = true := by
    decide +kernel
  obtain ⟨byte, hhead, hbyte⟩ := (Option.any_eq_true _ _).mp (hends word h)
  simpa [Json.Stops, head?_append, hhead, and_assoc] using hbyte

theorem readNumber_of_stops (h : Json.Stops rest) : readNumber rest = none := by
  cases rest with
  | nil => rfl
  | cons byte rest =>
    have hdigit := (h byte rfl).1
    have hzero : byte ≠ 0x30 := by
      rintro rfl
      exact absurd hdigit (by decide)
    have hnone : integerText (byte :: rest) = none := by
      unfold integerText
      split
      · simp_all
      · simp [hdigit]
    simp [readNumber, hnone]

theorem readNumber_decimal (n : ℕ) (h : Json.Stops rest) :
    readNumber (decimal n ++ rest) = some (n, rest) := by
  simp [readNumber, integerText_decimal n h, decimalValue_decimal]

theorem readName_text (name : ArrayName) (h : Json.Stops rest) :
    readName (name.text ++ rest) = some (name, rest) := by
  cases name with
  | path index => simp [readName, ArrayName.text, takeWord_append, readNumber_decimal index h]
  | content index =>
    have hpath := @takeWord_of_apart "embedded_path_" "embedded_content_" (by simp [apart])
    simp [readName, ArrayName.text, takeWord_append, readNumber_decimal index h, hpath]

theorem readByte_hexByte (byte : UInt8) (rest : Bytes) :
    readByte (hexByte byte ++ rest) = some (byte, rest) := by
  have hbyte := byte.toNat_lt
  have hhigh := hexValue_hexDigit (show byte.toNat / 16 < 16 by omega)
  have hlow := hexValue_hexDigit (show byte.toNat % 16 < 16 by omega)
  have hword : ascii "0x" = ascii "0" ++ ascii "x" := by decide +kernel
  simp only [readByte, hexByte, hword, append_assoc, takeWord_append, Option.bind_eq_bind,
    Option.bind_some, cons_append, nil_append, hhigh, hlow, Nat.div_add_mod, UInt8.ofNat_toNat]
  rfl

/-- Items that are printed one behind the other are read back. -/
theorem readMany_flatMap {α : Type} {read : Bytes → Option (α × Bytes)} (print : α → Bytes)
    (items : List α) (hprint : ∀ item, print item ≠ [])
    (hread : ∀ item ∈ items, ∀ rest, read (print item ++ rest) = some (item, rest))
    (hrest : read rest = none) {rounds : ℕ}
    (hrounds : (items.flatMap print ++ rest).length ≤ rounds) :
    readMany read rounds (items.flatMap print ++ rest) = (items, rest) := by
  induction items generalizing rounds with
  | nil => cases rounds <;> simp [readMany, hrest]
  | cons item items ih =>
    -- an item takes a byte, so a round is left for it
    have hlength := length_pos_iff.mpr (hprint item)
    rw [flatMap_cons, append_assoc, length_append] at hrounds
    obtain ⟨rounds, rfl⟩ := Nat.exists_eq_add_one_of_ne_zero (show rounds ≠ 0 by omega)
    have hitems : readMany read rounds (items.flatMap print ++ rest) = (items, rest) :=
      ih (fun item hitem => hread item (mem_cons_of_mem _ hitem)) (by omega)
    rw [readMany, flatMap_cons, append_assoc, hread item mem_cons_self]
    simp only [hitems]

theorem intercalate_map_cons {α : Type} (separator : Bytes) (print : α → Bytes) (item : α)
    (items : List α) : separator.intercalate ((item :: items).map print) =
      print item ++ items.flatMap fun item => separator ++ print item := by
  induction items generalizing item with
  | nil => simp [intercalate]
  | cons next items ih =>
    rw [map_cons, map_cons, intercalate_cons_cons, ← map_cons, ih]
    simp

theorem readNext_close (rest : Bytes) : readNext (ascii "\x7d;" ++ rest) = none := by
  rw [readNext, takeWord_of_apart (by simp [apart])]
  rfl

theorem readNext_hexByte (byte : UInt8) (rest : Bytes) :
    readNext (ascii ", " ++ hexByte byte ++ rest) = some (byte, rest) := by
  rw [readNext, append_assoc, takeWord_append]
  exact readByte_hexByte byte rest

theorem readBytes_zero (rest : Bytes) :
    readBytes (ascii "0" ++ (ascii "\x7d;" ++ rest)) = some ([0], ascii "\x7d;" ++ rest) := by
  have hx := @takeWord_of_apart "x" "\x7d;" (by simp [apart]) rest
  have hmany := readMany_flatMap hexByte [] (by simp [hexByte]) (by simp)
    (readNext_close rest) le_rfl
  rw [flatMap_nil, nil_append] at hmany
  simp only [readBytes, readByte, takeWord_append, hx, Option.bind_eq_bind, Option.bind_some,
    Option.pure_def, hmany]

theorem readBytes_intercalate (value : UInt8) (values rest : Bytes) :
    readBytes ((ascii ", ").intercalate ((value :: values).map hexByte) ++
      (ascii "\x7d;" ++ rest)) = some (value :: values, ascii "\x7d;" ++ rest) := by
  have hmany := readMany_flatMap (fun byte => ascii ", " ++ hexByte byte) values
    (by simp [hexByte]) (fun byte _ => readNext_hexByte byte) (readNext_close rest) le_rfl
  rw [intercalate_map_cons, append_assoc]
  simp only [readBytes, readByte_hexByte, Option.bind_eq_bind, Option.bind_some, Option.pure_def,
    hmany]

theorem readArray_byteArray (name : ArrayName) (data : Bytes) (readOnly : Bool) (rest : Bytes) :
    readArray ((byteArray name data readOnly).text ++ ascii "\n" ++ rest) =
      some (byteArray name data readOnly, rest) := by
  have hstatic := @takeWord_of_apart "static const uint8_t " "static uint8_t " (by simp [apart])
  have hopen := @stops_numberEnd "[" (by simp [numberEnds])
  have hclose := @stops_numberEnd "] = \x7b" (by simp [numberEnds])
  cases data with
  | nil =>
    cases readOnly <;>
      simp [readArray, byteArray, ArrayDeclaration.text, takeWord_append, readName_text, hopen,
        hclose, readNumber_decimal, readBytes_zero, hstatic]
  | cons value values =>
    have hvalues := readBytes_intercalate value values (ascii "\n" ++ rest)
    rw [map_cons] at hvalues
    cases readOnly <;>
      simp [readArray, byteArray, ArrayDeclaration.text, takeWord_append, readName_text, hopen,
        hclose, readNumber_of_stops, hvalues, hstatic]

theorem readRow_lines (row : TableRow) (rest : Bytes) :
    readRow (row.lines.flatMap (· ++ ascii "\n") ++ rest) = some (row, rest) := by
  have hcomma := @stops_numberEnd "," (by simp [numberEnds])
  have hunsigned := @stops_numberEnd "u," (by simp [numberEnds])
  have hplus := @stops_numberEnd " + " (by simp [numberEnds])
  simp [readRow, TableRow.lines, readName_text, readNumber_decimal, hcomma, hunsigned, hplus]

theorem readArray_newline (rest : Bytes) : readArray (ascii "\n" ++ rest) = none := by
  rw [readArray, takeWord_of_apart (by simp [apart]), takeWord_of_apart (by simp [apart])]
  rfl

theorem readRow_close (rest : Bytes) : readRow (ascii "\x7d;" ++ rest) = none := by
  have hopen := @takeWord_of_apart "    \x7b" "\x7d;" (by simp [apart]) rest
  simp only [readRow, takeWords, foldlM_cons, hopen, Option.bind_eq_bind, Option.bind_none]

theorem readArray_of_mem {files : List SnapshotFile} {declaration : ArrayDeclaration}
    (h : declaration ∈ (embeddedSources files).arrays) (rest : Bytes) :
    readArray (declaration.text ++ ascii "\n" ++ rest) = some (declaration, rest) := by
  obtain ⟨⟨entry, index⟩, -, h⟩ := mem_flatMap.mp h
  obtain rfl | rfl : declaration = _ ∨ declaration = _ := by simpa [entryArrays] using h
  · exact readArray_byteArray _ _ _ rest
  · exact readArray_byteArray _ _ _ rest

/-- **The emitted file is read back**: its text determines the declarations. -/
theorem readEmbeddedSources_render (files : List SnapshotFile) :
    readEmbeddedSources (renderEmbeddedSources files) = some (embeddedSources files) := by
  have hnewline : ascii "\n" ≠ [] := by decide +kernel
  have hlast : takeWords ["\n"] (ascii "\n") = some [] := by simpa using takeWords_cons "\n" [] []
  have harrays (rest : Bytes) := readMany_flatMap
    (fun declaration => declaration.text ++ ascii "\n")
    (embeddedSources files).arrays (by simp [hnewline]) (fun _ h => readArray_of_mem h)
    (readArray_newline rest) le_rfl
  have hrows (rest : Bytes) := readMany_flatMap (fun row => row.lines.flatMap (· ++ ascii "\n"))
    (embeddedSources files).rows (by simp [TableRow.lines, hnewline])
    (fun row _ => readRow_lines row) (readRow_close rest) le_rfl
  simp only [readEmbeddedSources, renderEmbeddedSources, EmbeddedSources.text, flatMap_append,
    flatMap_cons, flatMap_nil, flatMap_map, flatMap_assoc, append_assoc, nil_append, append_nil,
    takeWords_cons, takeWords_nil, Option.bind_eq_bind, Option.bind_some, harrays, hrows, hlast]
  rfl

end Reading

/-! ### The table that a compiler represents -/

/-- The cells of a declared array: the values, and zeros up to a declared size. -/
def ArrayDeclaration.cells (declaration : ArrayDeclaration) : Bytes :=
  match declaration.size with
  | none => declaration.values
  | some size => declaration.values ++ List.replicate (size - declaration.values.length) 0

/-- The array that a name stands for. -/
def EmbeddedSources.array (sources : EmbeddedSources) (name : ArrayName) : Option Bytes :=
  (sources.arrays.find? fun declaration => declaration.name = name).map ArrayDeclaration.cells

/-- The value of a row: the pointers stand in the arrays that they name, and `path_length` is a
`uint16_t`. -/
def EmbeddedSources.initialFile (sources : EmbeddedSources) (row : TableRow) :
    Option EmbeddedFile := do
  let path ← sources.array row.path
  let data ← sources.array row.data
  if h : row.endArray = row.data ∧ row.pathLength ≤ path.length ∧ row.pathLength < 2 ^ 16 ∧
      row.endOffset ≤ data.length then
    some ⟨path, row.pathLength, data, row.endOffset, h.2.1, h.2.2.1, h.2.2.2⟩
  else none

/-- The table `initial_files`. -/
def EmbeddedSources.initialFiles (sources : EmbeddedSources) : Option (List EmbeddedFile) :=
  sources.rows.mapM sources.initialFile

/-! ### The table holds the files -/

theorem find?_arrays {entries : List SnapshotFile} (start : ℕ) {i : ℕ} {entry : SnapshotFile}
    (h : entries[i]? = some entry) :
    let arrays := (entries.zipIdx start).flatMap fun (entry, index) => entryArrays entry index
    arrays.find? (fun declaration => declaration.name = .path (start + i)) =
        some (byteArray (.path (start + i)) entry.path true) ∧
      arrays.find? (fun declaration => declaration.name = .content (start + i)) =
        some (byteArray (.content (start + i)) entry.content false) := by
  have hname : ∀ name data readOnly, (byteArray name data readOnly).name = name := by
    intro name data readOnly
    unfold byteArray
    split_ifs <;> rfl
  induction entries generalizing start i with
  | nil => simp at h
  | cons first rest ih =>
    cases i with
    | zero =>
      obtain rfl : first = entry := by simpa using h
      simp [zipIdx_cons, entryArrays, hname]
    | succ i =>
      have hrest := ih (start + 1) (by simpa using h)
      rw [show start + 1 + i = start + (i + 1) by omega] at hrest
      have hne : start ≠ start + (i + 1) := by omega
      simpa [zipIdx_cons, entryArrays, hname, hne] using hrest

theorem array_embeddedSources {files : List SnapshotFile} {i : ℕ} {entry : SnapshotFile}
    (h : (sortByPath files)[i]? = some entry) :
    (embeddedSources files).array (.path i) =
        some (byteArray (.path i) entry.path true).cells ∧
      (embeddedSources files).array (.content i) =
        some (byteArray (.content i) entry.content false).cells := by
  have harrays := find?_arrays 0 h
  simp only [Nat.zero_add] at harrays
  constructor
  · rw [EmbeddedSources.array, embeddedSources, harrays.1, Option.map_some]
  · rw [EmbeddedSources.array, embeddedSources, harrays.2, Option.map_some]

theorem EmbeddedSources.initialFile_eq {sources : EmbeddedSources} {row : TableRow}
    {path data : Bytes} (hpath : sources.array row.path = some path)
    (hdata : sources.array row.data = some data) (harray : row.endArray = row.data)
    (hpathLength : row.pathLength ≤ path.length) (hword : row.pathLength < 2 ^ 16)
    (hend : row.endOffset ≤ data.length) :
    sources.initialFile row =
      some ⟨path, row.pathLength, data, row.endOffset, hpathLength, hword, hend⟩ := by
  rw [EmbeddedSources.initialFile, hpath, hdata]
  exact dif_pos ⟨harray, hpathLength, hword, hend⟩

/-- The cells that hold the data of an array start with the data. -/
theorem take_cells_byteArray (name : ArrayName) (data : Bytes) (readOnly : Bool) :
    (byteArray name data readOnly).cells.take data.length = data ∧
      data.length ≤ (byteArray name data readOnly).cells.length := by
  unfold byteArray ArrayDeclaration.cells
  by_cases h : data = []
  · simp [h]
  · simp [h]

theorem exists_mapM_eq_some {α β γ : Type} {f : α → Option β} {g : β → γ} {h : α → γ}
    {l : List α} (hf : ∀ a ∈ l, ∃ b, f a = some b ∧ g b = h a) :
    ∃ bs, l.mapM f = some bs ∧ bs.map g = l.map h := by
  induction l with
  | nil => exact ⟨[], rfl, rfl⟩
  | cons a l ih =>
    obtain ⟨b, hb, hgb⟩ := hf a mem_cons_self
    obtain ⟨bs, hbs, hmap⟩ := ih fun a' ha' => hf a' (mem_cons_of_mem _ ha')
    exact ⟨b :: bs, by simp [mapM_cons, hb, hbs], by simp [hgb, hmap]⟩

/-- **The emitted table holds the files**, with the path and the content that its pointers
delimit. -/
theorem initialFiles_embeddedSources {files} (hpaths : ∀ file ∈ files, file.path.length < 2 ^ 16) :
    ∃ initialFiles, (embeddedSources files).initialFiles = some initialFiles ∧
      initialFiles.map (fun initial => SnapshotFile.mk initial.name initial.content) =
        sortByPath files := by
  have hrow : ∀ p ∈ (sortByPath files).zipIdx, ∃ initial : EmbeddedFile,
      (embeddedSources files).initialFile (entryRow p.1 p.2) = some initial ∧
        SnapshotFile.mk initial.name initial.content = p.1 := by
    rintro ⟨entry, index⟩ hmem
    have hentry := mk_mem_zipIdx_iff_getElem?.mp hmem
    have hlength := hpaths entry ((perm_sortByPath files).mem_iff.mp (mem_of_getElem? hentry))
    have harrays := array_embeddedSources hentry
    have hpath := take_cells_byteArray (.path index) entry.path true
    have hcontent := take_cells_byteArray (.content index) entry.content false
    refine ⟨_, EmbeddedSources.initialFile_eq harrays.1 harrays.2 rfl hpath.2 hlength hcontent.2,
      ?_⟩
    simp only [EmbeddedFile.name, EmbeddedFile.content, entryRow, hpath.1, hcontent.1]
  obtain ⟨initialFiles, hinitial, hmap⟩ := exists_mapM_eq_some hrow
  refine ⟨initialFiles, ?_, ?_⟩
  · rw [EmbeddedSources.initialFiles, embeddedSources, mapM_map]
    exact hinitial
  · rw [hmap, zipIdx_map_fst]

/-! ### From the table to the snapshot -/

section Fixpoint

variable {budget : Budget} {files : List SnapshotFile} {initialFiles : List EmbeddedFile}

/-- `files_init` succeeds on the table of a valid snapshot, and the store holds its files in the
canonical order. -/
theorem filesInit_of_validFiles (hb : budget.bytes = Budget.default)
    (hvalid : ValidFiles budget files)
    (htable : initialFiles.map (fun initial => SnapshotFile.mk initial.name initial.content) =
      sortByPath files) (s₀ : Store) :
    ∃ s, filesInit initialFiles s₀ = .ok (true, s) ∧ s.WellFormed ∧
      s.entries.map snapshotFile = sortByPath files := by
  have hsorted := hvalid.perm (perm_sortByPath files)
  have hlength : initialFiles.length = (sortByPath files).length := by
    rw [← htable, length_map]
  have hnames : initialFiles.map EmbeddedFile.name =
      (sortByPath files).map SnapshotFile.path := by
    rw [← htable, map_map]
    rfl
  have hsizes : (initialFiles.map EmbeddedFile.size).sum = contentLength (sortByPath files) := by
    rw [← htable, contentLength, map_map]
    exact congrArg List.sum (map_congr_left fun initial _ => initial.length_content.symm)
  have hcount : initialFiles.length ≤ fileMaxCount := hlength ▸ hsorted.count_le
  have hfits : (initialFiles.map EmbeddedFile.size).sum ≤ fileContentCapacity := by
    have hcontent := hsorted.content_le
    have hdefault : Budget.default = (fileContentCapacity : ℤ) := by decide
    rw [hb, ← hsizes, hdefault] at hcontent
    exact Int.ofNat_le.mp hcontent
  have hnonempty : ∀ initial ∈ initialFiles, ValidPath initial.name := by
    intro initial hmem
    have hpath := mem_map_of_mem (f := EmbeddedFile.name) hmem
    rw [hnames] at hpath
    obtain ⟨file, hfile, hname⟩ := mem_map.mp hpath
    have hsource := hsorted.paths file hfile
    rw [hname] at hsource
    exact ⟨length_pos_iff.mp hsource.length_pos, hsource.length_le⟩
  set s₁ : Store := { s₀ with fileCount := 0, contentUsed := 0 } with hs₁
  have hentries : s₁.entries = [] := rfl
  have hinit := initFiles_succeeds initialFiles (wellFormed_of_empty (s := s₁) rfl rfl)
    (by simpa [hs₁] using hcount) hnonempty (by simpa [hentries, hnames] using hsorted.nodup)
    (by simpa [hs₁] using hfits)
  obtain ⟨⟨created, s⟩, hrun, hok, hs, hperm⟩ := hinit
  obtain rfl : created = true := hok
  refine ⟨s, ?_, hs, entries_eq_of_perm hs ?_⟩
  · rw [filesInit, if_neg (by omega)]
    exact hrun
  · have hfiles := (hperm.map snapshotFile).trans (by rw [hentries, append_nil])
    rw [map_map] at hfiles
    exact (hfiles.trans (List.Perm.of_eq htable)).trans (perm_sortByPath files)

/-- Every file of the store is selected when the harness accepts every path. -/
theorem selected_eq_entries {s : Store} (hvalid : ∀ entry ∈ s.entries, BuildPath entry.1) :
    s.selected = s.entries :=
  filter_eq_self.mpr fun entry hentry =>
    decide_eq_true (selectedPath_of_buildPath (hvalid entry hentry))

/-- **The generational fixpoint.** Take a snapshot that the parser accepts under the default
budget, and the file that is rendered for it, as text. Its declarations can be read from the text
and hold a table. The seed accepts the table and selects every file; the length it measures is the
length of the bytes it sends, and the bytes are the canonical encoding of the snapshot, which the
parser accepts again. -/
theorem generational_fixpoint (hb : budget.bytes = Budget.default) {data : Bytes}
    {snapshot : SourceSnapshot} (h : parseSourceSnapshotWithBudget data budget = .ok snapshot)
    (s₀ : Store) :
    ∃ sources initialFiles s count written canonical,
      readEmbeddedSources (renderEmbeddedSources snapshot.files) = some sources ∧
      sources.initialFiles = some initialFiles ∧
      filesInit initialFiles s₀ = .ok (true, s) ∧
      s.fileCount = snapshot.files.length ∧
      (∀ i < s.fileCount, buildPathValid (s.files.get i) = .ok true) ∧
      sourceSnapshotMeasure s = .ok (some (count, written.length)) ∧
      (∀ out, sourceSnapshotWrite count s out = .ok (out ++ written)) ∧
      newCanonicalSourceSnapshotWithBudget snapshot.files budget = .ok canonical ∧
      written = canonical.encoded ∧
      parseSourceSnapshotWithBudget written budget = .ok canonical := by
  have hvalidBudget : budget.Valid := .inl hb
  obtain ⟨hvalid, -, -⟩ := (parseSourceSnapshotWithBudget_eq_ok hvalidBudget).mp h
  obtain ⟨initialFiles, hinitial, htable⟩ := initialFiles_embeddedSources fun file hfile =>
    (hvalid.paths file hfile).length_le.trans_lt (by decide)
  obtain ⟨s, hinit, hs, hentries⟩ := filesInit_of_validFiles hb hvalid htable s₀
  have hsorted := hvalid.perm (perm_sortByPath snapshot.files)
  have hbuild : ∀ entry ∈ s.entries, BuildPath entry.1 := fun entry hentry =>
    (hsorted.paths (snapshotFile entry) (hentries ▸ mem_map_of_mem hentry)).build
  have hselected := selected_eq_entries hbuild
  have hencoded : leBytes 2 s.entries.length ++ s.entries.flatMap entryBytes =
      encodeSnapshotFiles (sortByPath snapshot.files) := by
    rw [← encodeSnapshotFiles_eq, hentries]
  refine ⟨embeddedSources snapshot.files, initialFiles, s, s.selected.length,
    leBytes 2 s.selected.length ++ s.selected.flatMap entryBytes,
    ⟨encodeSnapshotFiles (sortByPath snapshot.files), sortByPath snapshot.files⟩,
    readEmbeddedSources_render snapshot.files, hinitial, hinit, ?_, fun i hi => ?_, ?_,
    fun out => ?_, newCanonicalSourceSnapshotWithBudget_eq_ok.mpr ⟨hvalid, rfl⟩, ?_, ?_⟩
  · have hcount := congrArg List.length hentries
    rw [length_map, (perm_sortByPath _).length_eq] at hcount
    rw [← hcount]
    simp [Store.entries]
  · have hmem : s.entry i ∈ s.entries := mem_map_of_mem (mem_range.mpr hi)
    rw [hs.buildPathValid_eq hi, decide_eq_true (selectedPath_of_buildPath (hbuild _ hmem))]
  · rw [hs.sourceSnapshotMeasure_eq, snapshotLength_eq]
  · rw [hs.sourceSnapshotWrite_eq, append_assoc]
  · rw [hselected, hencoded]
  · rw [hselected, hencoded]
    exact (parseSourceSnapshotWithBudget_eq_ok hvalidBudget).mpr ⟨hsorted, rfl, rfl⟩

/-- A snapshot of two files, one of them empty, the larger path first. -/
theorem generational_fixpoint_two_files :
    parseSourceSnapshotWithBudget (encodeSnapshotFiles seedFiles) 0 =
      .ok ⟨encodeSnapshotFiles seedFiles, seedFiles⟩ ∧
    ∃ sources initialFiles s count written,
      readEmbeddedSources (renderEmbeddedSources seedFiles) = some sources ∧
      sources.initialFiles = some initialFiles ∧
      filesInit initialFiles .zeroed = .ok (true, s) ∧ s.fileCount = 2 ∧
      sourceSnapshotMeasure s = .ok (some (count, written.length)) ∧
      ∀ out, sourceSnapshotWrite count s out = .ok (out ++ written) := by
  have hparse : parseSourceSnapshotWithBudget (encodeSnapshotFiles seedFiles) 0 =
      .ok ⟨encodeSnapshotFiles seedFiles, seedFiles⟩ := by decide +kernel
  obtain ⟨sources, initialFiles, s, count, written, -, hsources, hinitial, hinit, hcount, -,
    hmeasure, hwrite, -⟩ := generational_fixpoint (by decide) hparse .zeroed
  exact ⟨hparse, sources, initialFiles, s, count, written, hsources, hinitial, hinit, hcount,
    hmeasure, hwrite⟩

end Fixpoint

end Carcer.Build
