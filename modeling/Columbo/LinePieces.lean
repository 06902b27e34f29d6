import Columbo.AddressText
import Columbo.LogParser
import Columbo.NumberParsing
import Columbo.SubstringSearch
import Columbo.TextShape

/-!
# Lines made of words and numbers

A line of a log is a sequence of words, of numbers in base ten or sixteen, of addresses,
of blanks and of other text. The values are holes in the shape of the line, from which it
is computed whether a search finds a word and where it goes. Numbers are read piece by
piece.
-/
namespace Columbo

open Occurrence TextShape

inductive Piece
  | word (s : String)
  | dec (n : ℕ)
  | hex (n : ℕ)
  | mac (a : MacAddress)
  | ip (a : Ipv4)
  | blanks (n : ℕ)
  | raw (t : Bytes)

namespace Piece

def text : Piece → Bytes
  | word s => bytes s
  | dec n => numText 10 n
  | hex n => numText 16 n
  | mac a => macText a
  | ip a => a.text
  | blanks n => List.replicate n (byte ' ')
  | raw t => t

def shape : Piece → List (Item UInt8)
  | word s => (bytes s).map .item
  | dec _ => [.hole isNum]
  | hex _ => [.hole (isDigitOf 16)]
  | mac _ => [.hole fun c => isDigitOf 16 c || c == byte ':']
  | ip _ => [.hole fun c => isNum c || c == byte '.']
  | blanks _ => [.hole (· == byte ' ')]
  | raw t => t.map .item

end Piece

open Piece

def textOf (ps : List Piece) : Bytes := ps.flatMap Piece.text

def lineShape (ps : List Piece) : List (Item UInt8) := ps.flatMap Piece.shape

section Text

variable {ps : List Piece} {c : UInt8}

@[simp] theorem textOf_nil : textOf [] = [] := rfl

@[simp] theorem textOf_cons (p : Piece) (ps : List Piece) :
    textOf (p :: ps) = p.text ++ textOf ps := rfl

@[simp] theorem textOf_append (ps qs : List Piece) :
    textOf (ps ++ qs) = textOf ps ++ textOf qs := List.flatMap_append

@[simp] theorem textOf_raw (t : Bytes) : textOf [.raw t] = t := List.append_nil t

theorem isDigitOf_digitByte {d : ℕ} (h : d < 16) : isDigitOf 16 (digitByte d) = true :=
  isDigitOf_iff.mpr ⟨d, digitOf_digitByte (by omega), h⟩

theorem isDigitOf_of_mem_numText {n : ℕ} (h : c ∈ numText 16 n) : isDigitOf 16 c = true := by
  obtain ⟨d, hd, rfl⟩ := List.mem_map.mp h
  exact isDigitOf_digitByte (Numeral.digit_lt (by decide) hd)

theorem isDigitOf_of_mem_macText {a : MacAddress} (h : c ∈ macText a) :
    (isDigitOf 16 c || c == byte ':') = true := by
  have hbyte : ∀ b, c ∈ macByteText b → isDigitOf 16 c = true := by
    intro b hc
    obtain ⟨d, hd, rfl⟩ := List.mem_map.mp hc
    exact isDigitOf_digitByte (digit_lt_of_mem_macDigits hd)
  rw [Bool.or_eq_true, beq_iff_eq]
  rcases List.mem_append.mp h with hhead | htail
  · exact .inl (hbyte _ hhead)
  · obtain ⟨b, -, hb⟩ := List.mem_flatMap.mp htail
    rcases List.mem_cons.mp hb with hcolon | hb
    · exact .inr hcolon
    · exact .inl (hbyte _ hb)

theorem isNum_of_mem_ipText {a : Ipv4} (h : c ∈ a.text) : (isNum c || c == byte '.') = true := by
  by_contra hc
  rw [Bool.not_eq_true, Bool.or_eq_false_iff] at hc
  exact not_mem_ipText hc.1 (by simpa [bytes, byte] using hc.2) h

theorem Piece.fills_shape (p : Piece) : Fills p.shape p.text := by
  cases p with
  | word s => exact .items _
  | dec n => exact .fill fun c hc => isNum_of_mem_numText hc
  | hex n => exact .fill fun c hc => isDigitOf_of_mem_numText hc
  | mac a => exact .fill fun c hc => isDigitOf_of_mem_macText hc
  | ip a => exact .fill fun c hc => isNum_of_mem_ipText hc
  | blanks n => exact .fill fun c hc => beq_iff_eq.mpr (List.eq_of_mem_replicate hc)
  | raw t => exact .items _

theorem fills_lineShape (ps : List Piece) : Fills (lineShape ps) (textOf ps) := by
  induction ps with
  | nil => exact .nil
  | cons p ps ih => exact p.fills_shape.append ih

/-- No white space is in front of a number. -/
theorem stopsAt_isSpace_numText {n : ℕ} {rest : Bytes} :
    StopsAt isSpace (numText 10 n ++ rest) := by
  obtain ⟨c, cs, hc⟩ := List.exists_cons_of_ne_nil (numText_ne_nil 10 n)
  have hmem : c ∈ numText 10 n := by simp [hc]
  rw [hc, List.cons_append, stopsAt_cons]
  exact isSpace_of_isAlnum (isAlnum_of_isNum (isNum_of_mem_numText hmem))

/-- Whether the word occurs in no line of this shape. -/
def lacks (ps : List Piece) (word : String) : Bool := !mayOccur (bytes word) (lineShape ps)

theorem not_infix_of_lacks {word : String} (h : lacks ps word = true) :
    ¬ bytes word <:+: textOf ps := by
  rw [lacks, Bool.not_eq_true'] at h
  exact not_infix_of_shape (fills_lineShape ps) h

/-- Whether a search for the word ends where every line of this shape ends. -/
def finds (word : String) (ps : List Piece) : Bool :=
  !(bytes word).isEmpty && TextShape.finds (bytes word) (lineShape ps)

/-- Whether the words differ before one of them ends. -/
def clashes (word s : String) : Bool :=
  !(bytes word).isPrefixOf (bytes s) && !(bytes s).isPrefixOf (bytes word)

theorem not_prefix_of_clashes {word s : String} (h : clashes word s = true) (t : Bytes) :
    ¬ bytes word <+: bytes s ++ t := by
  simp only [clashes, Bool.and_eq_true, Bool.not_eq_true', ← Bool.not_eq_true,
    List.isPrefixOf_iff_prefix] at h
  intro hprefix
  rcases le_total (bytes word).length (bytes s).length with hle | hle
  · exact h.1 (List.prefix_of_prefix_length_le hprefix (List.prefix_append _ _) hle)
  · exact h.2 (List.prefix_of_prefix_length_le (List.prefix_append _ _) hprefix hle)

/-- Whether a search for the word ends where the text ends. -/
def endsWith (word s : String) : Bool := finds word [.word s]

/-- The front of the text is no letter and no digit. -/
def stops : List Piece → Bool
  | [] => true
  | word s :: _ => (bytes s).head?.any fun c => !isAlnum c
  | blanks (_ + 1) :: _ => true
  | _ :: _ => false

theorem stopsAlnum_of_stops (h : stops ps = true) {rest : Bytes} (hrest : StopsAlnum rest) :
    StopsAlnum (textOf ps ++ rest) := by
  match ps with
  | [] => exact hrest
  | word s :: ps =>
    rw [stops, Option.any_eq_true] at h
    obtain ⟨c, hc, halnum⟩ := h
    obtain ⟨cs, hcs⟩ := List.head?_eq_some_iff.mp hc
    rw [textOf_cons, Piece.text, hcs]
    simpa using halnum
  | blanks (k + 1) :: ps =>
    rw [textOf_cons, Piece.text, List.replicate_succ]
    exact (stopsAlnum_cons _ _).mpr (by decide)

theorem stopsAlnum_textOf (h : stops ps = true) : StopsAlnum (textOf ps) := by
  rw [← List.append_nil (textOf ps)]
  exact stopsAlnum_of_stops h stopsAlnum_nil

end Text

section Rules

variable {mem : Bytes} {ps : List Piece} {α : Type} {a : α} {word s : String} {n : UInt64}
  {ok : Bytes → Prop} {f : Unit → LineScan α} {g : UInt64 → LineScan α} {q r : LineScan α}

/-- The search goes to an occurrence behind a front that is stepped over. -/
theorem reads_of_finds {w t : Bytes} {shape : List (Item UInt8)} (hw : w ≠ [])
    (hfills : Fills shape t) (h : TextShape.finds w shape = true) :
    Reads (AtText mem) (consumeAndTrimTillString w) t () fun _ => True := by
  obtain ⟨front, rfl, hstepped⟩ := split_of_finds hfills h
  intro s rest hv _
  refine ⟨s.advance (front ++ w).length, ?_, hv.advance⟩
  have hsearch : searchLoop w _ _ 0 = _ :=
    searchLoop_of_steppedOver hw (hstepped (w ++ rest)) le_rfl
  rw [consumeAndTrimTillString_eq hw, hv.rest_eq, List.append_assoc, hsearch, Nat.zero_add,
    List.length_append]
  rfl

theorem reads_found (h : finds word ps = true) :
    Reads (AtText mem) (consumeAndTrimTillString (bytes word)) (textOf ps) () fun _ => True := by
  rw [finds, Bool.and_eq_true, Bool.not_eq_true', ← Bool.not_eq_true, List.isEmpty_iff] at h
  exact reads_of_finds h.1 (fills_lineShape ps) h.2

theorem reads_word (h : endsWith word s = true) :
    Reads (AtText mem) (consumeAndTrimTillString (bytes word)) (bytes s) () fun _ => True := by
  rw [← List.append_nil (bytes s)]
  exact reads_found h

theorem refuses_word (h : lacks ps word = true) :
    Refuses (AtText mem) (consumeAndTrimTillString (bytes word)) (textOf ps) :=
  refuses_of_absent (not_infix_of_lacks h)

/-- A search for a word, and what is read behind it. -/
theorem reads_till (h : endsWith word s = true)
    (hf : Reads (AtText mem) (f ()) (textOf ps) a ok) :
    Reads (AtText mem) (consumeAndTrimTillString (bytes word) >>= f) (textOf (.word s :: ps)) a
      ok :=
  (reads_word h).seq hf

/-- A number, and what is read behind it. -/
theorem reads_dec (hn : n.toNat < ULONG_MAX) (hstops : stops ps = true)
    (hg : Reads (AtText mem) (g n) (textOf ps) a StopsAlnum) :
    Reads (AtText mem) (parseUintTrim 10 >>= g) (textOf (.dec n.toNat :: ps)) a StopsAlnum :=
  (reads_parseUintTrim (.inl rfl) n hn).bind hg fun _ hrest => stopsAlnum_of_stops hstops hrest

theorem reads_hex (hn : n.toNat < ULONG_MAX) (hstops : stops ps = true)
    (hg : Reads (AtText mem) (g n) (textOf ps) a StopsAlnum) :
    Reads (AtText mem) (parseUintTrim 16 >>= g) (textOf (.hex n.toNat :: ps)) a StopsAlnum :=
  (reads_parseUintTrim (.inr rfl) n hn).bind hg fun _ hrest => stopsAlnum_of_stops hstops hrest

theorem reads_mac {m : MacAddress} {g : MacAddress → LineScan α} (hstops : stops ps = true)
    (hg : Reads (AtText mem) (g m) (textOf ps) a StopsAlnum) :
    Reads (AtText mem) (parseMacAddress >>= g) (textOf (.mac m :: ps)) a StopsAlnum :=
  (reads_parseMacAddress m).bind hg fun _ hrest => stopsAlnum_of_stops hstops hrest

theorem reads_ip {i : Ipv4} {g : Ipv4 → LineScan α} (hstops : stops ps = true)
    (hg : Reads (AtText mem) (g i) (textOf ps) a StopsAlnum) :
    Reads (AtText mem) (parseIpAddress >>= g) (textOf (.ip i :: ps)) a StopsAlnum :=
  (reads_parseIpAddress i).bind hg fun _ hrest => stopsAlnum_of_stops hstops hrest

theorem reads_int {i : Int32} {g : Int32 → LineScan α} (hi : 0 ≤ i) (hstops : stops ps = true)
    (hg : Reads (AtText mem) (g i) (textOf ps) a StopsAlnum) :
    Reads (AtText mem) (parseInt >>= g) (textOf (.dec i.toNatClampNeg :: ps)) a StopsAlnum :=
  (reads_parseInt i hi).bind hg fun _ hrest => stopsAlnum_of_stops hstops hrest

theorem returns_till (h : endsWith word s = true)
    (hf : Returns (AtText mem) (f ()) (textOf ps) a) :
    Returns (AtText mem) (consumeAndTrimTillString (bytes word) >>= f) (textOf (.word s :: ps)) a :=
  (reads_word h).bind_returns hf trivial

/-- A search that goes through several pieces. -/
theorem reads_seek (ps : List Piece) {qs : List Piece} (h : finds word ps = true)
    (hf : Reads (AtText mem) (f ()) (textOf qs) a ok) :
    Reads (AtText mem) (consumeAndTrimTillString (bytes word) >>= f) (textOf (ps ++ qs)) a ok := by
  rw [textOf_append]
  exact (reads_found h).seq hf

theorem returns_seek (ps : List Piece) {qs : List Piece} (h : finds word ps = true)
    (hf : Returns (AtText mem) (f ()) (textOf qs) a) :
    Returns (AtText mem) (consumeAndTrimTillString (bytes word) >>= f) (textOf (ps ++ qs)) a := by
  rw [textOf_append]
  exact (reads_found h).bind_returns hf trivial

theorem returns_string (hs : bytes s ≠ []) (hf : Returns (AtText mem) (f ()) (textOf ps) a) :
    Returns (AtText mem) (consumeAndTrimString (bytes s) >>= f) (textOf (.word s :: ps)) a :=
  (reads_consumeAndTrimString hs).bind_returns hf trivial

theorem returns_dec (hn : n.toNat < ULONG_MAX) (hstops : stops ps = true)
    (hg : Returns (AtText mem) (g n) (textOf ps) a) :
    Returns (AtText mem) (parseUintTrim 10 >>= g) (textOf (.dec n.toNat :: ps)) a :=
  (reads_parseUintTrim (.inl rfl) n hn).bind_returns hg (stopsAlnum_textOf hstops)

theorem returns_hex (hn : n.toNat < ULONG_MAX) (hstops : stops ps = true)
    (hg : Returns (AtText mem) (g n) (textOf ps) a) :
    Returns (AtText mem) (parseUintTrim 16 >>= g) (textOf (.hex n.toNat :: ps)) a :=
  (reads_parseUintTrim (.inr rfl) n hn).bind_returns hg (stopsAlnum_textOf hstops)

/-- No white space is in front of a time stamp. -/
theorem returns_parseTimestamp (hn : n.toNat < ULONG_MAX) (hstops : stops ps = true)
    (hg : Returns (AtText mem) (g n) (textOf ps) a) :
    Returns (AtText mem) (LogParser.parseTimestamp >>= g) (textOf (.dec n.toNat :: ps)) a := by
  have hread : Reads (AtText mem) LogParser.parseTimestamp (numText 10 n.toNat) n StopsAlnum :=
    (reads_trimL (t := []) (by simp)).bind (reads_parseUintTrim (.inl rfl) n hn)
      fun rest _ => stopsAt_isSpace_numText
  exact hread.bind_returns hg (stopsAlnum_textOf hstops)

theorem returns_int {i : Int32} {g : Int32 → LineScan α} (hi : 0 ≤ i) (hstops : stops ps = true)
    (hg : Returns (AtText mem) (g i) (textOf ps) a) :
    Returns (AtText mem) (parseInt >>= g) (textOf (.dec i.toNatClampNeg :: ps)) a :=
  (reads_parseInt i hi).bind_returns hg (stopsAlnum_textOf hstops)

/-- The word does not start with white space. -/
def isVisible (s : String) : Bool := (bytes s).head?.any fun c => !isSpace c

theorem stopsAt_isSpace_word (hs : isVisible s = true) :
    StopsAt isSpace (textOf (.word s :: ps)) := by
  obtain ⟨c, hc, hspace⟩ := (Option.any_eq_true ..).mp hs
  obtain ⟨cs, hcs⟩ := List.head?_eq_some_iff.mp hc
  rw [textOf_cons, Piece.text, hcs]
  simpa using hspace

/-- No white space is in front of a word, -/
theorem returns_trimL (hs : isVisible s = true)
    (hf : Returns (AtText mem) (f ()) (textOf (.word s :: ps)) a) :
    Returns (AtText mem) (trimL >>= f) (textOf (.word s :: ps)) a := by
  rw [← List.nil_append (textOf _)]
  exact (reads_trimL (t := []) (by simp)).bind_returns hf (stopsAt_isSpace_word hs)

theorem isSpace_of_mem_blanks {k : ℕ} {c : UInt8} (h : c ∈ List.replicate k (byte ' ')) :
    isSpace c = true := by
  rw [List.eq_of_mem_replicate h]
  decide

/-- and any number of blanks is skipped, -/
theorem returns_trimL_blanks {k : ℕ} (hs : isVisible s = true)
    (hf : Returns (AtText mem) (f ()) (textOf (.word s :: ps)) a) :
    Returns (AtText mem) (trimL >>= f) (textOf (.blanks k :: .word s :: ps)) a :=
  (reads_trimL fun _ => isSpace_of_mem_blanks).bind_returns hf (stopsAt_isSpace_word hs)

/-- also in front of a number -/
theorem returns_trimL_dec {k m : ℕ} (hf : Returns (AtText mem) (f ()) (textOf (.dec m :: ps)) a) :
    Returns (AtText mem) (trimL >>= f) (textOf (.blanks k :: .dec m :: ps)) a :=
  (reads_trimL fun _ => isSpace_of_mem_blanks).bind_returns hf stopsAt_isSpace_numText

/-- or an address. -/
theorem reads_trimL_ip {k : ℕ} {i : Ipv4}
    (hf : Reads (AtText mem) (f ()) (textOf (.ip i :: ps)) a ok) :
    Reads (AtText mem) (trimL >>= f) (textOf (.blanks k :: .ip i :: ps)) a ok := by
  refine (reads_trimL fun _ => isSpace_of_mem_blanks).bind hf fun rest _ => ?_
  change StopsAt isSpace (textOf (.ip i :: ps) ++ rest)
  simp only [textOf_cons, Piece.text, Ipv4.text, List.append_assoc]
  exact stopsAt_isSpace_numText

theorem reads_trimL_word {k : ℕ} (hs : isVisible s = true)
    (hf : Reads (AtText mem) (f ()) (textOf (.word s :: ps)) a ok) :
    Reads (AtText mem) (trimL >>= f) (textOf (.blanks k :: .word s :: ps)) a ok := by
  refine (reads_trimL fun _ => isSpace_of_mem_blanks).bind hf fun rest _ => ?_
  change StopsAt isSpace (textOf (.word s :: ps) ++ rest)
  rw [← textOf_raw rest, ← textOf_append]
  exact stopsAt_isSpace_word hs

/-- Text without white space is skipped up to the next blank. -/
theorem returns_skipTill {t : Bytes} {k : ℕ} (ht : ∀ c ∈ t, isSpace c = false)
    (hf : Returns (AtText mem) (f ()) (textOf (.blanks (k + 1) :: ps)) a) :
    Returns (AtText mem) (skipTill isSpace >>= f) (textOf (.raw t :: .blanks (k + 1) :: ps)) a := by
  intro h hv
  have htext : textOf (.raw t :: .blanks (k + 1) :: ps) =
      t ++ byte ' ' :: (List.replicate k (byte ' ') ++ textOf ps) := by
    simp [Piece.text, List.replicate_succ]
  rw [htext] at hv
  have hskip : skipTill isSpace h = (some (), h.advance t.length) := by
    have hread : ((t ++ byte ' ' :: (List.replicate k (byte ' ') ++ textOf ps)).takeWhile
        fun c => !isSpace c) = t := by
      rw [List.takeWhile_append_of_pos (by simpa using ht), List.takeWhile_cons, if_neg (by decide),
        List.append_nil]
    have hsize := hv.2
    rw [List.length_append, List.length_cons] at hsize
    rw [skipTill, hv.rest_eq, hread, hv.isEmpty_eq (by simp), if_neg (by decide), if_pos (by omega)]
  rw [Scan.bind_of_some hskip]
  refine hf _ ?_
  have hv' := hv.advance
  rwa [← List.cons_append, ← List.replicate_succ] at hv'

theorem refuses_string (h : clashes word s = true) :
    Refuses (AtText mem) (consumeAndTrimString (bytes word)) (textOf (.word s :: ps)) :=
  refuses_consumeAndTrimString (not_prefix_of_clashes h _)

theorem returns_branch_string (hs : bytes s ≠ []) (hq : Returns (AtText mem) q (textOf ps) a) :
    Returns (AtText mem) (.branch (consumeAndTrimString (bytes s)) q r) (textOf (.word s :: ps))
      a :=
  (reads_consumeAndTrimString hs).branch hq trivial

theorem returns_branch_of_clashes (h : clashes word s = true)
    (hr : Returns (AtText mem) r (textOf (.word s :: ps)) a) :
    Returns (AtText mem) (.branch (consumeAndTrimString (bytes word)) q r)
      (textOf (.word s :: ps)) a :=
  (refuses_string h).branch hr

/-- A search that finds its word decides for the first branch, -/
theorem returns_branch (h : endsWith word s = true)
    (hq : Returns (AtText mem) q (textOf ps) a) :
    Returns (AtText mem) (.branch (consumeAndTrimTillString (bytes word)) q r)
      (textOf (.word s :: ps)) a :=
  (reads_word h).branch hq trivial

/-- and one that cannot find it for the second. -/
theorem returns_branch_of_lacks (h : lacks ps word = true)
    (hr : Returns (AtText mem) r (textOf ps) a) :
    Returns (AtText mem) (.branch (consumeAndTrimTillString (bytes word)) q r) (textOf ps) a :=
  (refuses_word h).branch hr

theorem returns_of_reads {qs : List Piece} (hq : Reads (AtText mem) q (textOf ps) a StopsAlnum)
    (hstops : stops qs = true) : Returns (AtText mem) q (textOf (ps ++ qs)) a := by
  rw [textOf_append]
  exact hq.returns (stopsAlnum_textOf hstops)

theorem returns_of_reads_all (hq : Reads (AtText mem) q (textOf ps) a StopsAlnum) :
    Returns (AtText mem) q (textOf ps) a := by
  rw [← List.append_nil ps]
  exact returns_of_reads hq rfl

end Rules

end Columbo
