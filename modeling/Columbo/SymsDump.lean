import Columbo.SymsLoading

/-!
# Loading a symbol dump

The output of `objdump --syms`, and the table that `LoadSyms` makes of it. The columns of a
symbol line are found by skipping a fixed number of bytes behind white space, so leading
blank flags shift them; a visibility stands where the name is looked for; and the header
line is taken for a symbol line when the file name starts with a number. What a line
enters is computed from its columns.
-/
namespace Columbo

open TextColumns

/-- A line of the symbol table, as its columns. -/
structure SymsLine where
  address : UInt64
  flags : { t : Bytes // t.length = 7 ∧ ∀ c ∈ t, c = byte ' ' ∨ isSpace c = false }
  sectionName : Word isSpace
  size : { t : Bytes // t ≠ [] ∧ ∀ c ∈ t, isDigitOf 16 c = true }
  visibility : Option (Word isSpace)
  name : { t : Bytes // t ≠ [] ∧ ∀ c ∈ t, isAlnumDotBar c = true }

theorem isSpace_of_isDigitOf {c : UInt8} (hc : isDigitOf 16 c = true) : isSpace c = false := by
  obtain ⟨d, hd, -⟩ := isDigitOf_iff.mp hc
  exact isSpace_of_isAlnum (isAlnum_of_digitOf hd)

theorem isSpace_of_isAlnumDotBar {c : UInt8} (hc : isAlnumDotBar c = true) : isSpace c = false := by
  simp only [isAlnumDotBar, Bool.or_eq_true, beq_iff_eq] at hc
  rcases hc with (hc | rfl) | rfl
  · exact isSpace_of_isAlnum hc
  · decide
  · decide

namespace SymsLine

/-- The address in sixteen digits. -/
def addressText (line : SymsLine) : Bytes :=
  List.leftpad 16 (byte '0') (numText 16 line.address.toNat)

def sizeWord (line : SymsLine) : Word isSpace :=
  ⟨line.size.1, line.size.2.1, fun c hc => isSpace_of_isDigitOf (line.size.2.2 c hc)⟩

def nameWord (line : SymsLine) : Word isSpace :=
  ⟨line.name.1, line.name.2.1, fun c hc => isSpace_of_isAlnumDotBar (line.name.2.2 c hc)⟩

/-- The columns behind the flags. -/
def columns (line : SymsLine) : List (Column isSpace) :=
  ⟨byte ' ', line.sectionName, rfl⟩ :: ⟨byte '\t', line.sizeWord, rfl⟩ ::
    (line.visibility.toList ++ [line.nameWord]).map fun word => ⟨byte ' ', word, rfl⟩

def text (line : SymsLine) : Bytes :=
  line.addressText ++ byte ' ' :: (line.flags.1 ++ TextColumns.text line.columns)

/-- How far into the columns the seven bytes reach that are taken for the flags: as far as
there are leading blanks, and over the separator as well where all flags are blank. -/
def skipped (line : SymsLine) : ℕ :=
  let blanks := (line.flags.1.takeWhile isSpace).length
  if blanks < 7 then blanks else 8

/-- The name under which the line is entered. -/
def label (line : SymsLine) : Option Bytes :=
  if line.address.toNat = ULONG_MAX then none
  else if line.skipped ≤ line.sectionName.1.length then
    line.visibility.elim (some line.name.1) fun visibility => SymsFilter.nameOf visibility.1
  else if line.skipped ≤ line.sectionName.1.length + 1 + line.size.1.length then
    line.visibility.map fun _ => line.name.1
  else none

end SymsLine

namespace SymsFilter

section Lines

variable {line : SymsLine} {cs : List (Column isSpace)} {t : Bytes}

theorem nameOf_text_cons (c : Column isSpace) (cs : List (Column isSpace)) :
    nameOf (TextColumns.text (c :: cs)) = nameOf c.word.1 := by
  have hhead : ∀ d ∈ (TextColumns.text cs).head?, isAlnumDotBar d = false := by
    intro d hd
    have hsep := head?_text cs d hd
    by_contra hname
    rw [isSpace_of_isAlnumDotBar (by simpa using hname)] at hsep
    cases hsep
  have hword := dropWhile_word c.word []
  rw [List.append_nil] at hword
  rw [text_cons, nameOf, nameOf, List.dropWhile_cons_of_pos c.lead_sep, dropWhile_word, hword,
    takeWhile_append_of_head hhead]

theorem nameOf_name (line : SymsLine) : nameOf line.name.1 = some line.name.1 := by
  have hname : line.name.1.takeWhile isAlnumDotBar = line.name.1 :=
    List.takeWhile_eq_self_iff.mpr line.name.2.2
  have htrim : line.name.1.dropWhile isSpace = line.name.1 := by
    have hword := dropWhile_word line.nameWord []
    rwa [List.append_nil] at hword
  rw [nameOf, htrim, hname, if_neg line.name.2.1]

/-- The third word from a place in a row of columns is the second one behind it. -/
theorem thirdName_drop (k : ℕ) (cs : List (Column isSpace)) :
    thirdName ((TextColumns.text cs).drop k) =
      ((behind k cs).tail.head?).bind fun c => nameOf c.word.1 := by
  rw [thirdName, behindWord_drop, behindWord_text]
  cases (behind k cs).tail with
  | nil => rfl
  | cons c cs => exact nameOf_text_cons c cs

/-- Where the name is looked for in the columns of a line. -/
theorem thirdName_columns (line : SymsLine) (k : ℕ) :
    thirdName ((TextColumns.text line.columns).drop k) =
      if k ≤ line.sectionName.1.length then
        line.visibility.elim (some line.name.1) fun visibility => nameOf visibility.1
      else if k ≤ line.sectionName.1.length + 1 + line.size.1.length then
        line.visibility.map fun _ => line.name.1
      else none := by
  have hname : nameOf line.nameWord.1 = some line.name.1 := nameOf_name line
  have hbehind (j : ℕ) : (behind j ((line.visibility.toList ++ [line.nameWord]).map
      fun word => (⟨byte ' ', word, rfl⟩ : Column isSpace))).tail = [] := by
    have hlt := length_behind_lt j ((line.visibility.toList ++ [line.nameWord]).map
      fun word => (⟨byte ' ', word, rfl⟩ : Column isSpace)) (by simp)
    have htwo : (line.visibility.toList ++ [line.nameWord]).length ≤ 2 := by
      cases line.visibility <;> simp
    rw [List.length_map] at hlt
    rw [← List.length_eq_zero_iff, List.length_tail]
    omega
  rw [thirdName_drop, SymsLine.columns, behind]
  split_ifs with hsection hsize
  · cases line.visibility <;> simp [hname]
  · rw [behind, if_pos (by simp only [SymsLine.sizeWord]; omega)]
    cases line.visibility <;> simp [hname]
  · rw [behind, if_neg (by simp only [SymsLine.sizeWord]; omega), hbehind]
    rfl

theorem addressText_eq (line : SymsLine) : ∃ ds : List ℕ,
    line.addressText = ds.map digitByte ∧ ds ≠ [] ∧ (∀ d ∈ ds, d < 16) ∧
      Numeral.value 16 ds = line.address.toNat := by
  have hlead : List.replicate (16 - (numText 16 line.address.toNat).length) (byte '0') =
      (List.replicate (16 - (numText 16 line.address.toNat).length) 0).map digitByte := by
    rw [List.map_replicate]
    rfl
  refine ⟨List.replicate (16 - (numText 16 line.address.toNat).length) 0 ++
    Numeral.numeral 16 line.address.toNat, ?_, ?_, ?_, ?_⟩
  · rw [SymsLine.addressText, List.leftpad, hlead, List.map_append]
    rfl
  · simp [Numeral.numeral_ne_nil]
  · intro d hd
    rcases List.mem_append.mp hd with hd | hd
    · rw [List.eq_of_mem_replicate hd]
      decide
    · exact Numeral.digit_lt (by decide) hd
  · rw [Numeral.value_append, Numeral.value_numeral]
    simp [Numeral.value_eq_ofDigits]

theorem isAlnum_of_mem_addressText {c : UInt8} (hc : c ∈ line.addressText) : isAlnum c = true := by
  obtain ⟨ds, hds, -, hlt, -⟩ := addressText_eq line
  rw [hds] at hc
  obtain ⟨d, hd, rfl⟩ := List.mem_map.mp hc
  exact isAlnum_digitByte (hlt d hd)

theorem addressText_ne_nil (line : SymsLine) : line.addressText ≠ [] := by
  obtain ⟨ds, hds, hne, -⟩ := addressText_eq line
  simpa [hds] using hne

/-- The address of a line is an address word. -/
theorem dropWhile_text (line : SymsLine) : line.text.dropWhile isSpace = line.text :=
  dropWhile_word ⟨line.addressText, addressText_ne_nil line,
    fun _ hc => isSpace_of_isAlnum (isAlnum_of_mem_addressText hc)⟩ _

theorem addressOf_text (line : SymsLine) :
    addressOf line.text = if line.address.toNat = ULONG_MAX then none else some line.address := by
  have hrun : line.text.takeWhile isAlnum = line.addressText := by
    rw [SymsLine.text,
      takeWhile_append_of_head (by simp [show isAlnum (byte ' ') = false by decide])]
    exact List.takeWhile_eq_self_iff.mpr fun _ hc => isAlnum_of_mem_addressText hc
  have hvalue : strtoul 16 line.addressText = line.address.toNat := by
    obtain ⟨ds, hds, hne, hlt, hvalue⟩ := addressText_eq line
    have hmax : line.address.toNat ≤ ULONG_MAX := Nat.le_pred_of_lt line.address.toNat_lt
    have hread := strtoul_digits (s := []) hne le_rfl hlt stopsAlnum_nil (hvalue ▸ hmax)
    rwa [List.append_nil, ← hds, hvalue] at hread
  rw [addressOf, dropWhile_text, hrun]
  simp only [addressText_ne_nil, false_or, hvalue]
  rw [Nat.toUInt64_eq, UInt64.ofNat_toNat]

theorem behindAddress_text (line : SymsLine) : behindAddress line.text =
    byte ' ' :: (line.flags.1 ++ TextColumns.text line.columns) := by
  have hrun : line.addressText.dropWhile isAlnum = [] :=
    List.dropWhile_eq_nil_iff.mpr fun _ hc => isAlnum_of_mem_addressText hc
  rw [behindAddress, dropWhile_text, SymsLine.text,
    dropWhile_append_of_head (by simp [show isAlnum (byte ' ') = false by decide]), hrun,
    List.nil_append]

/-- The seven bytes are taken from the first flag that is not blank on. -/
theorem drop_flags (line : SymsLine) :
    ((behindAddress line.text).dropWhile isSpace).drop 7 =
      (TextColumns.text line.columns).drop line.skipped := by
  have hblank : isSpace (byte ' ') = true := rfl
  have hsplit := List.takeWhile_append_dropWhile (p := isSpace) (l := line.flags.1)
  have hlength := congrArg List.length hsplit
  rw [List.length_append, line.flags.2.1] at hlength
  rw [behindAddress_text, List.dropWhile_cons_of_pos hblank, SymsLine.skipped]
  by_cases hflags : line.flags.1.dropWhile isSpace = []
  · have hcolumns : (TextColumns.text line.columns).dropWhile isSpace =
        (TextColumns.text line.columns).drop 1 := by
      rw [SymsLine.columns, text_cons, List.dropWhile_cons_of_pos hblank, dropWhile_word]
      rfl
    rw [hflags, List.length_nil] at hlength
    rw [List.dropWhile_append, hflags, List.isEmpty_nil, if_pos rfl, hcolumns, List.drop_drop,
      if_neg (by omega)]
  · have hpos := List.length_pos_of_ne_nil hflags
    rw [List.dropWhile_append, if_neg (by simpa using hflags), List.drop_append,
      List.drop_of_length_le (by omega), List.nil_append, if_pos (by omega)]
    congr 1
    omega

theorem symbolOfText_line (line : SymsLine) :
    symbolOfText line.text = line.label.map fun name => (line.address, name) := by
  rw [symbolOfText, addressOf_text, drop_flags, thirdName_columns, SymsLine.label]
  by_cases hmax : line.address.toNat = ULONG_MAX
  · rw [if_pos hmax, if_pos hmax]
    rfl
  · rw [if_neg hmax, if_neg hmax]
    rfl

end Lines

end SymsFilter

/-- The output of `objdump --syms` for a file. -/
structure SymsDump where
  fileName : { t : Bytes // kLineEnd ∉ t }
  format : { t : Bytes // kLineEnd ∉ t }
  symbols : List SymsLine

namespace SymsDump

def header (d : SymsDump) : Bytes := d.fileName.1 ++ bytes ":     file format " ++ d.format.1

def text (d : SymsDump) : Bytes :=
  bytes "\n" ++ d.header ++ bytes "\n\nSYMBOL TABLE:\n" ++
    d.symbols.flatMap (fun line => line.text ++ [kLineEnd]) ++ bytes "\n\n"

/-- The name of the first symbol line with the address. -/
def nameAt (d : SymsDump) (address : UInt64) : Option Bytes :=
  (d.symbols.find? fun line => line.address = address).map fun line => line.name.1

/-- The table has the name of the first symbol line at each address, and nothing else. -/
structure Tabulates (d : SymsDump) (addressOffset : UInt64) (table : SortedMap ℕ Bytes) :
    Prop where
  maps : ∀ line ∈ d.symbols,
    table.find? ((line.address.toNat + addressOffset.toNat) % 2 ^ 64) = d.nameAt line.address
  keys : ∀ key ∈ table.keys, ∃ line ∈ d.symbols,
    key = (line.address.toNat + addressOffset.toNat) % 2 ^ 64

/-- What stands for the name when the header is read as a symbol line: the format, or
where the rest of the file name is longer than the flags, the third word from there. -/
def headerName (d : SymsDump) : Option Bytes :=
  let behind := (SymsFilter.behindAddress d.fileName.1).dropWhile isSpace
  if behind.length < 7 then SymsFilter.nameOf d.format.1
  else SymsFilter.thirdName (behind.drop 7 ++ (bytes ":     file format " ++ d.format.1))

/-- The header line, with the newline in front of it, fits into the block of the reader. -/
def headerFits (d : SymsDump) : Prop := 1 + d.header.length < SymsFilter.blockSize

instance (d : SymsDump) : Decidable d.headerFits := inferInstanceAs (Decidable (_ < _))

/-- What the header line enters. -/
def headerEntry (d : SymsDump) : Option (UInt64 × Bytes) :=
  if d.headerFits then
    (SymsFilter.addressOf d.fileName.1).bind fun address =>
      d.headerName.map fun name => (address, name)
  else none

/-- The symbol lines in front of the first one that the reader gives up at. -/
def reached (d : SymsDump) : List SymsLine :=
  if d.headerFits then d.symbols.takeWhile fun line => line.text.length < SymsFilter.blockSize
  else []

/-- What the header line and then the symbol lines enter. -/
def entries (d : SymsDump) : List (UInt64 × Bytes) :=
  d.headerEntry.toList ++
    d.reached.filterMap fun line => line.label.map fun name => (line.address, name)

/-- The name that the symbol lines enter for an address. -/
def labelAt (d : SymsDump) (address : UInt64) : Option Bytes :=
  d.reached.findSome? fun line => if line.address = address then line.label else none

/-- The header line enters what the symbol lines say, or nothing, and the first line that
enters a name for another address enters the name of the first line with this address. -/
structure Faithful (d : SymsDump) : Prop where
  header : ∀ e ∈ d.headerEntry, d.nameAt e.1 = some e.2
  columns : ∀ line ∈ d.symbols, (∀ e ∈ d.headerEntry, e.1 ≠ line.address) →
    d.labelAt line.address = d.nameAt line.address

end SymsDump

namespace SymsFilter

section Header

variable {t u : Bytes}

theorem nameOf_cons_of_sep {c : UInt8} (hc : isSpace c = true) : nameOf (c :: t) = nameOf t := by
  rw [nameOf, List.dropWhile_cons_of_pos hc, nameOf]

theorem visible_of_all {w : Bytes} (h : (w.all fun c => !isSpace c) = true) :
    ∀ c ∈ w, isSpace c = false := by
  simpa using h

theorem thirdName_blanks (k : ℕ) (t : Bytes) :
    thirdName (List.replicate k (byte ' ') ++ t) = thirdName t := by
  induction k with
  | zero => rfl
  | succ k ih =>
    rw [List.replicate_succ, List.cons_append, thirdName, behindWord_cons_of_sep rfl]
    exact ih

/-- Behind a word and the word `format` the format is the third one. -/
theorem thirdName_format {w : Bytes} (hne : w ≠ []) (hw : (w.all fun c => !isSpace c) = true)
    (format : Bytes) : thirdName (w ++ (bytes " format " ++ format)) = nameOf format := by
  have hfirst : behindWord isSpace (w ++ (bytes " format " ++ format)) =
      byte ' ' :: (bytes "format" ++ (byte ' ' :: format)) :=
    behindWord_append hne (visible_of_all hw) (by simp [bytes, isSpace, byte])
  have hsecond : behindWord isSpace (bytes "format" ++ (byte ' ' :: format)) =
      byte ' ' :: format :=
    behindWord_append (by decide) (visible_of_all rfl) (by simp [isSpace])
  rw [thirdName, hfirst, behindWord_cons_of_sep rfl, hsecond, nameOf_cons_of_sep rfl]

/-- With at most six bytes in front of the colon the flags end in front of the format. -/
theorem thirdName_header {k : ℕ} (hk : k < 7) (format : Bytes) :
    thirdName ((bytes ":     file format " ++ format).drop (7 - k)) = nameOf format := by
  cases k with
  | zero => exact @thirdName_format (bytes "ile") (by decide) rfl format
  | succ k =>
    have hdrop : (bytes ":     file format " ++ format).drop (7 - (k + 1)) =
        List.replicate k (byte ' ') ++ (bytes "file" ++ (bytes " format " ++ format)) := by
      have hlt : k < 6 := Nat.lt_of_succ_lt_succ hk
      interval_cases k <;> rfl
    rw [hdrop, thirdName_blanks, thirdName_format (by decide) rfl]

theorem symbolOfText_header (d : SymsDump) : symbolOfText d.header =
    (addressOf d.fileName.1).bind fun address => d.headerName.map fun name => (address, name) := by
  have hspace : ∀ c ∈ (bytes ":     file format " ++ d.format.1).head?, isSpace c = false := by
    simp [bytes, isSpace, byte]
  have halnum : ∀ c ∈ (bytes ":     file format " ++ d.format.1).head?, isAlnum c = false := by
    simp [bytes, isAlnum, isNum]
  have haddress : addressOf d.header = addressOf d.fileName.1 := by
    rw [addressOf, SymsDump.header, List.append_assoc, dropWhile_append_of_head hspace,
      takeWhile_append_of_head halnum, addressOf]
  have hbehind : (behindAddress d.header).dropWhile isSpace =
      (behindAddress d.fileName.1).dropWhile isSpace ++
        (bytes ":     file format " ++ d.format.1) := by
    rw [behindAddress, SymsDump.header, List.append_assoc, dropWhile_append_of_head hspace,
      dropWhile_append_of_head halnum, dropWhile_append_of_head hspace, behindAddress]
  have hname : thirdName (((behindAddress d.header).dropWhile isSpace).drop 7) =
      d.headerName := by
    rw [hbehind, List.drop_append, SymsDump.headerName]
    split_ifs with hshort
    · rw [List.drop_of_length_le (by omega), List.nil_append, thirdName_header hshort]
    · rw [show 7 - ((behindAddress d.fileName.1).dropWhile isSpace).length = 0 by omega,
        List.drop_zero]
  rw [symbolOfText, haddress, hname]

/-- `SYMBOL TABLE:` starts with a word that is read as zero, and is too short. -/
theorem symbolOfText_tableLine : symbolOfText (bytes "SYMBOL TABLE:") = none := by decide

end Header

section Loading

variable {s : SymsFilter} {addressOffset : UInt64}

theorem not_mem_word {w : Bytes} (hw : ∀ c ∈ w, isSpace c = false) : kLineEnd ∉ w := by
  intro hmem
  have hspace := hw kLineEnd hmem
  exact absurd hspace (by decide)

theorem not_mem_columns {cs : List (Column isSpace)} (h : ∀ c ∈ cs, c.lead ≠ kLineEnd) :
    kLineEnd ∉ TextColumns.text cs := by
  rw [TextColumns.text, List.mem_flatMap]
  rintro ⟨c, hc, hmem⟩
  rcases List.mem_cons.mp hmem with heq | hmem
  · exact h c hc heq.symm
  · exact not_mem_word c.word.2.2 hmem

theorem line_text (line : SymsLine) : line.text ≠ [] ∧ kLineEnd ∉ line.text := by
  refine ⟨by simp [SymsLine.text], ?_⟩
  rw [SymsLine.text, List.mem_append, List.mem_cons, List.mem_append]
  rintro (hmem | heq | hmem | hmem)
  · exact not_mem_word (fun _ hc => isSpace_of_isAlnum (isAlnum_of_mem_addressText hc)) hmem
  · exact absurd heq (by decide)
  · rcases line.flags.2.2 kLineEnd hmem with heq | hspace
    · exact absurd heq (by decide)
    · exact absurd hspace (by decide)
  · refine not_mem_columns (fun c hc => ?_) hmem
    simp only [SymsLine.columns, List.mem_cons, List.mem_map] at hc
    have hblank : byte ' ' ≠ kLineEnd := by decide
    have htab : byte '\t' ≠ kLineEnd := by decide
    rcases hc with rfl | rfl | ⟨word, -, rfl⟩
    · exact hblank
    · exact htab
    · exact hblank

theorem header_text (d : SymsDump) : d.header ≠ [] ∧ kLineEnd ∉ d.header := by
  refine ⟨by simp [SymsDump.header, bytes], ?_⟩
  rw [SymsDump.header, List.mem_append, List.mem_append, not_or, not_or]
  exact ⟨⟨d.fileName.2, by decide⟩, d.format.2⟩

theorem insertions_dump (d : SymsDump) (hfits : d.headerFits) :
    insertions addressOffset ([d.header] ++ ([bytes "SYMBOL TABLE:"] ++
      (d.symbols.map SymsLine.text).takeWhile fun l => l.length < blockSize)) =
        d.entries.map fun e => ((addressOffset + e.1).toNat, e.2) := by
  have hheader : [d.header].filterMap symbolOfText = d.headerEntry.toList := by
    rw [SymsDump.headerEntry, if_pos hfits, ← symbolOfText_header]
    cases hsymbol : symbolOfText d.header with
    | none => exact List.filterMap_cons_none hsymbol
    | some e => exact List.filterMap_cons_some hsymbol
  have htable : [bytes "SYMBOL TABLE:"].filterMap symbolOfText = [] := by
    rw [List.filterMap_cons_none symbolOfText_tableLine, List.filterMap_nil]
  have hlines : ((d.symbols.map SymsLine.text).takeWhile fun l => l.length < blockSize) =
      d.reached.map SymsLine.text := by
    rw [SymsDump.reached, if_pos hfits, List.takeWhile_map]
    rfl
  have hsymbols : (symbolOfText ∘ SymsLine.text) =
      fun line => line.label.map fun name => (line.address, name) :=
    funext symbolOfText_line
  rw [insertions, SymsDump.entries, List.filterMap_append, List.filterMap_append, hheader,
    htable, hlines, List.filterMap_map, hsymbols, List.nil_append]

theorem loadSyms_dump (d : SymsDump) (chunks : ℕ → ℕ) (hfilter : s.symbolFilter = ∅) :
    s.loadSyms d.text chunks addressOffset = some { s with
      symbolTable := s.symbolTable.insertAll
        (d.entries.map fun e => ((addressOffset + e.1).toNat, e.2)) } := by
  have hr := ReaderBuffer.inv_openFile blockSize d.text chunks
  have hpending := ReaderBuffer.pending_openFile blockSize d.text chunks
  have hwindow : (ReaderBuffer.openFile blockSize d.text chunks).window = [] := by
    simp [ReaderBuffer.window, ReaderBuffer.openFile]
  have hheader : StartsLine kLineEnd d.text 1 d.header (bytes "\nSYMBOL TABLE:\n" ++
      (d.symbols.flatMap (fun line => line.text ++ [kLineEnd]) ++ bytes "\n\n")) := by
    refine ⟨?_, (header_text d).1, (header_text d).2⟩
    simp only [SymsDump.text, List.append_assoc]
    rfl
  have htable : StartsLine kLineEnd (bytes "\nSYMBOL TABLE:\n" ++
      (d.symbols.flatMap (fun line => line.text ++ [kLineEnd]) ++ bytes "\n\n")) 1
      (bytes "SYMBOL TABLE:") ((d.symbols.map SymsLine.text).flatMap (· ++ [kLineEnd]) ++
        List.replicate 2 kLineEnd) := by
    refine ⟨?_, by decide, by decide⟩
    rw [List.flatMap_map]
    rfl
  have hlength := hheader.length_eq
  have hlength' := htable.length_eq
  rw [← hpending] at hheader
  rw [loadSyms]
  by_cases hfits : d.headerFits
  · obtain ⟨r₁, hr₁, hpending₁, hloop₁⟩ := loadLoop_of_found addressOffset d.text.length hfilter
      hr (ReaderBuffer.found_of_fits hheader hfits) hheader
    rw [← hpending₁] at htable
    obtain ⟨fuel, hfuel⟩ : ∃ n, d.text.length = n + 1 := ⟨d.text.length - 1, by omega⟩
    have hfilter₁ : (s.loaded addressOffset [d.header]).symbolFilter = ∅ := hfilter
    obtain ⟨r₂, hr₂, hpending₂, hloop₂⟩ := loadLoop_of_found addressOffset fuel hfilter₁ hr₁
      (ReaderBuffer.found_of_fits htable (by decide)) htable
    have hlines : ∀ l ∈ d.symbols.map SymsLine.text, l ≠ [] ∧ kLineEnd ∉ l := by
      rintro l hl
      obtain ⟨line, -, rfl⟩ := List.mem_map.mp hl
      exact line_text line
    have hfilter₂ : ((s.loaded addressOffset [d.header]).loaded addressOffset
      [bytes "SYMBOL TABLE:"]).symbolFilter = ∅ := hfilter
    rw [hloop₁, hfuel, hloop₂,
      loadLoop_lines hlines 2 hfilter₂ hr₂ hpending₂ (by rw [hpending₂]; omega), loaded_append,
      loaded_append, loaded, insertions_dump d hfits]
  · have hnot : ¬ ReaderBuffer.Found (ReaderBuffer.openFile blockSize d.text chunks) :=
      fun hfound => hfits (ReaderBuffer.fits_of_found hwindow hfound hheader)
    rw [loadLoop_of_not_found hr hnot, SymsDump.entries, SymsDump.headerEntry, if_neg hfits,
      SymsDump.reached, if_neg hfits]
    rfl

end Loading

section Tables

variable {d : SymsDump} {a a' : UInt64} {addressOffset : UInt64} {name : Bytes}

theorem key_eq (a addressOffset : UInt64) :
    (addressOffset + a).toNat = (a.toNat + addressOffset.toNat) % 2 ^ 64 := by
  rw [UInt64.toNat_add, Nat.add_comm]

theorem key_inj (h : (addressOffset + a).toNat = (addressOffset + a').toNat) : a = a' :=
  (UInt64.add_right_inj addressOffset).mp (UInt64.toNat_inj.mp h)

/-- The first entry for an address. -/
def entryAt (es : List (UInt64 × Bytes)) (a : UInt64) : Option Bytes :=
  (es.find? fun e => e.1 = a).map Prod.snd

theorem find?_key (es : List (UInt64 × Bytes)) (a : UInt64) :
    (((SortedMap.empty : SortedMap ℕ Bytes).insertAll
      (es.map fun e => ((addressOffset + e.1).toNat, e.2))).find? (addressOffset + a).toNat) =
      entryAt es a := by
  have hkey : ((fun e : ℕ × Bytes => decide (e.1 = (addressOffset + a).toNat)) ∘
      fun e : UInt64 × Bytes => ((addressOffset + e.1).toNat, e.2)) =
      fun e => decide (e.1 = a) := by
    funext e
    exact decide_eq_decide.mpr ⟨key_inj, congrArg fun x => (addressOffset + x).toNat⟩
  rw [SortedMap.find?_insertAll, SortedMap.find?_empty, Option.none_or, List.find?_map, hkey,
    Option.map_map, entryAt]
  rfl

theorem entryAt_filterMap (ls : List SymsLine) (a : UInt64) :
    entryAt (ls.filterMap fun line => line.label.map fun name => (line.address, name)) a =
      ls.findSome? fun line => if line.address = a then line.label else none := by
  induction ls with
  | nil => rfl
  | cons line ls ih =>
    rw [List.findSome?_cons, ← ih, entryAt]
    cases hlabel : line.label with
    | none => rw [List.filterMap_cons_none (by simp [hlabel]), ite_self, entryAt]
    | some name =>
      rw [List.filterMap_cons_some (by rw [hlabel]; rfl)]
      by_cases ha : line.address = a
      · rw [List.find?_cons_of_pos (by simpa using ha), if_pos ha]
        rfl
      · rw [List.find?_cons_of_neg (by simpa using ha), if_neg ha, entryAt]

theorem entryAt_header {e : UInt64 × Bytes} (he : e ∈ d.headerEntry) :
    entryAt d.entries e.1 = some e.2 := by
  have hsome : d.headerEntry = some e := he
  rw [SymsDump.entries, hsome, entryAt, Option.toList_some, List.singleton_append,
    List.find?_cons_of_pos (by simp)]
  rfl

theorem entryAt_lines (ha : ∀ e ∈ d.headerEntry, e.1 ≠ a) :
    entryAt d.entries a = d.labelAt a := by
  rw [SymsDump.labelAt, ← entryAt_filterMap, SymsDump.entries, entryAt, entryAt]
  cases hheader : d.headerEntry with
  | none => rfl
  | some e =>
    have hne : e.1 ≠ a := ha e hheader
    rw [Option.toList_some, List.singleton_append, List.find?_cons_of_neg (by simpa using hne)]

/-- A name comes from a symbol line with this address. -/
theorem exists_of_nameAt (h : d.nameAt a = some name) : ∃ line ∈ d.symbols, line.address = a := by
  obtain ⟨line, hline, -⟩ := Option.map_eq_some_iff.mp h
  exact ⟨line, List.mem_of_find?_eq_some hline, by simpa using List.find?_some hline⟩

theorem exists_of_labelAt (h : d.labelAt a = some name) :
    ∃ line ∈ d.symbols, line.address = a := by
  obtain ⟨line, hline, hlabel⟩ := List.exists_of_findSome?_eq_some h
  have ha : line.address = a := by
    by_contra hne
    rw [if_neg hne] at hlabel
    cases hlabel
  refine ⟨line, ?_, ha⟩
  rw [SymsDump.reached] at hline
  split_ifs at hline
  · exact List.takeWhile_subset _ hline
  · cases hline

/-- The entries are right exactly when those of the header and of the lines are. -/
theorem faithful_iff : d.Faithful ↔
    (∀ line ∈ d.symbols, entryAt d.entries line.address = d.nameAt line.address) ∧
      ∀ a name, entryAt d.entries a = some name → ∃ line ∈ d.symbols, line.address = a := by
  constructor
  · rintro ⟨hheader, hcolumns⟩
    refine ⟨fun line hline => ?_, fun a name ha => ?_⟩
    · by_cases hnamed : ∃ e ∈ d.headerEntry, e.1 = line.address
      · obtain ⟨e, he, heq⟩ := hnamed
        rw [← heq, entryAt_header he, hheader e he]
      · have hfresh : ∀ e ∈ d.headerEntry, e.1 ≠ line.address :=
          fun e he heq => hnamed ⟨e, he, heq⟩
        rw [entryAt_lines hfresh, hcolumns line hline hfresh]
    · by_cases hnamed : ∃ e ∈ d.headerEntry, e.1 = a
      · obtain ⟨e, he, rfl⟩ := hnamed
        exact exists_of_nameAt (hheader e he)
      · rw [entryAt_lines fun e he heq => hnamed ⟨e, he, heq⟩] at ha
        exact exists_of_labelAt ha
  · rintro ⟨hmaps, hkeys⟩
    refine ⟨fun e he => ?_, fun line hline hfresh => ?_⟩
    · obtain ⟨line, hline, heq⟩ := hkeys e.1 e.2 (entryAt_header he)
      rw [← heq, ← hmaps line hline, heq, entryAt_header he]
    · rw [← entryAt_lines hfresh, hmaps line hline]

theorem tabulates_iff (d : SymsDump) (addressOffset : UInt64) :
    d.Tabulates addressOffset ((SortedMap.empty : SortedMap ℕ Bytes).insertAll
      (d.entries.map fun e => ((addressOffset + e.1).toNat, e.2))) ↔ d.Faithful := by
  rw [faithful_iff]
  constructor
  · rintro ⟨hmaps, hkeys⟩
    refine ⟨fun line hline => ?_, fun a name ha => ?_⟩
    · rw [← hmaps line hline, ← key_eq, find?_key]
    · have hmem : (addressOffset + a).toNat ∈ ((SortedMap.empty : SortedMap ℕ Bytes).insertAll
          (d.entries.map fun e => ((addressOffset + e.1).toNat, e.2))).keys := by
        rw [SortedMap.mem_keys_iff, find?_key, ha]
        rfl
      obtain ⟨line, hline, hkey⟩ := hkeys _ hmem
      rw [← key_eq] at hkey
      exact ⟨line, hline, (key_inj hkey).symm⟩
  · rintro ⟨hmaps, hkeys⟩
    refine ⟨fun line hline => ?_, fun key hkey => ?_⟩
    · rw [← key_eq, find?_key, hmaps line hline]
    · obtain ⟨name, hname⟩ := Option.isSome_iff_exists.mp (SortedMap.mem_keys_iff.mp hkey)
      obtain ⟨a, rfl⟩ : ∃ a, (addressOffset + a).toNat = key := by
        rw [SortedMap.find?_insertAll, SortedMap.find?_empty, Option.none_or] at hname
        obtain ⟨e, he, -⟩ := Option.map_eq_some_iff.mp hname
        obtain ⟨e', -, rfl⟩ := List.mem_map.mp (List.mem_of_find?_eq_some he)
        exact ⟨e'.1, by simpa using List.find?_some he⟩
      rw [find?_key] at hname
      obtain ⟨line, hline, rfl⟩ := hkeys a name hname
      exact ⟨line, hline, key_eq _ _⟩

/-- `LoadSyms` makes the table of a dump exactly when the columns of its lines keep the
names in place and the header line is not taken for a symbol. -/
theorem loadSyms_tabulates_iff (d : SymsDump) (chunks : ℕ → ℕ) (addressOffset : UInt64) :
    (∃ s, loadSyms ⟨∅, SortedMap.empty⟩ d.text chunks addressOffset = some s ∧
      d.Tabulates addressOffset s.symbolTable) ↔ d.Faithful := by
  rw [loadSyms_dump d chunks rfl, ← tabulates_iff d addressOffset]
  constructor
  · rintro ⟨s, hs, htable⟩
    rw [Option.some.injEq] at hs
    rwa [← hs] at htable
  · exact fun htable => ⟨_, rfl, htable⟩

/-- The head of the dump of a module, with one of its section symbols. -/
def i40eDump : SymsDump where
  fileName := ⟨bytes "i40e-image", by decide⟩
  format := ⟨bytes "elf64-x86-64", by decide⟩
  symbols := [{
    address := 0
    flags := ⟨bytes "l    d ", by decide, by simp [bytes, byte, isSpace]⟩
    sectionName := ⟨bytes ".note.Linux", by decide, visible_of_all rfl⟩
    size := ⟨bytes "0000000000000000", by decide, List.all_eq_true.mp rfl⟩
    visibility := none
    name := ⟨bytes ".note.Linux", by decide, List.all_eq_true.mp (by decide)⟩ }]

/-- The file name starts with letters that are read as zero, and the format is entered as
the symbol there. -/
theorem not_tabulates_i40eDump : ¬ ∃ s, loadSyms ⟨∅, SortedMap.empty⟩ i40eDump.text
    (fun _ => 4096) 0 = some s ∧ i40eDump.Tabulates 0 s.symbolTable := by
  rintro ⟨s, hs, htable⟩
  rw [loadSyms_dump i40eDump (fun _ => 4096) rfl, Option.some.injEq] at hs
  rw [← hs, tabulates_iff, faithful_iff] at htable
  have hwrong : ¬ ∀ line ∈ i40eDump.symbols,
      entryAt i40eDump.entries line.address = i40eDump.nameAt line.address := by
    decide +kernel
  exact hwrong htable.1

end Tables

end SymsFilter

end Columbo
