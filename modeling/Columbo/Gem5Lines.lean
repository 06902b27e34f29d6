import Columbo.Gem5Parser
import Columbo.LinePieces

/-!
# Lines of a gem5 log

The lines of the SimBricks adapter and of the PCI host are read back with all
their values. Words that are tried before those of a line differ from them before
either ends, and a failed alternative consumes nothing of the line.
-/
namespace Columbo

open Piece LogParser Gem5Parser TextShape

/-- What the SimBricks adapter says. -/
inductive Gem5Adapter
  | sendingRead (addr size id : UInt64) (bar : Int32) (offs : UInt64)
  | sendingWrite (addr size id : UInt64) (bar : Int32) (offs : UInt64) (posted : Int32)
  | immediateResponse
  | readCompletion (id : UInt64)
  | writeCompletion (id : UInt64)
  | dmaRead (id addr size : UInt64)
  | dmaWrite (id addr size : UInt64)
  | msiX (vec : UInt64)
  | completedDma (id : UInt64)

namespace Gem5Adapter

def mmio (addr size id : UInt64) (bar : Int32) (offs : UInt64) : List Piece :=
  [hex addr.toNat, word " size ", dec size.toNat, word " id ", dec id.toNat, word " bar ",
   dec bar.toNatClampNeg, word " offs ", hex offs.toNat]

def dma (id addr size : UInt64) : List Piece :=
  [dec id.toNat, word " addr ", hex addr.toNat, word " size ", dec size.toNat]

def pieces : Gem5Adapter → List Piece
  | sendingRead addr size id bar offs =>
    word "sending " :: word "read addr " :: mmio addr size id bar offs
  | sendingWrite addr size id bar offs posted =>
    word "sending " :: word "write addr " ::
      (mmio addr size id bar offs ++ [word " posted ", dec posted.toNatClampNeg])
  | immediateResponse => [word "sending ", word "immediate response for posted write"]
  | readCompletion id => [word "received ", word "read ", word "completion id ", dec id.toNat]
  | writeCompletion id => [word "received ", word "write ", word "completion id ", dec id.toNat]
  | dmaRead id addr size => word "received " :: word "DMA " :: word "read id " :: dma id addr size
  | dmaWrite id addr size => word "received " :: word "DMA " :: word "write id " :: dma id addr size
  | msiX vec => [word "received ", word "MSI-X intr vec ", dec vec.toNat]
  | completedDma id => [word "completed DMA id ", dec id.toNat]

def kind : Gem5Adapter → EventKind
  | sendingRead addr size id bar offs => .hostMmioR id addr size bar offs
  | sendingWrite addr size id bar offs posted => .hostMmioW id addr size bar offs (posted != 0)
  | immediateResponse => .hostMmioImRespPoW
  | readCompletion id => .hostMmioCR id
  | writeCompletion id => .hostMmioCW id
  | dmaRead id addr size => .hostDmaR id addr size
  | dmaWrite id addr size => .hostDmaW id addr size
  | msiX vec => .hostMsiX vec
  | completedDma id => .hostDmaC id

/-- The numbers of 64 bits in a line. -/
def values : Gem5Adapter → List UInt64
  | sendingRead addr size id _ offs | sendingWrite addr size id _ offs _ => [addr, size, id, offs]
  | immediateResponse => []
  | readCompletion id | writeCompletion id | completedDma id => [id]
  | dmaRead id addr size | dmaWrite id addr size => [id, addr, size]
  | msiX vec => [vec]

/-- The numbers that are read as an `int`. -/
def ints : Gem5Adapter → List Int32
  | sendingRead _ _ _ bar _ => [bar]
  | sendingWrite _ _ _ bar _ posted => [bar, posted]
  | _ => []

end Gem5Adapter

/-- What a line says behind the time stamp. The name of the adapter and the address on
the bus are of the simulation; data that is zero can be written without a prefix. -/
inductive Gem5Line
  | adapter (name : Bytes) (line : Gem5Adapter)
  | conf (name : Bytes) (isRead : Bool) (gap : ℕ) (dev func reg numBytes : UInt64)
    (data : Option UInt64)
  | pciHost (bus : Bytes) (isRead : Bool) (offset size : UInt64)
  | clearInt (bus : Bytes)
  | postInt (bus : Bytes)

namespace Gem5Line

def simbricks (name : Bytes) (ps : List Piece) : List Piece :=
  word "system.pc" :: word ".simbricks" :: raw (name ++ bytes ":") :: blanks 1 :: ps

def interface (bus : Bytes) (s : String) : List Piece :=
  [word "system.pc", word ".pci_host", word ".interface", raw (bytes "[" ++ (bus ++ bytes "]:")),
   blanks 1, word s]

def confData : Option UInt64 → List Piece
  | some data => [word "0x", hex data.toNat]
  | none => [word "0"]

def pieces : Gem5Line → List Piece
  | adapter name line => simbricks name (word "simbricks-pci:" :: blanks 1 :: line.pieces)
  | conf name isRead gap dev func reg numBytes data =>
    simbricks name (word (if isRead then "readConfig:" else "writeConfig:") :: blanks gap ::
      word "dev " :: dec dev.toNat :: word " func " :: dec func.toNat :: word " reg 0x" ::
      hex reg.toNat :: word " " :: dec numBytes.toNat :: word " bytes: data = " :: confData data)
  | pciHost bus isRead offset size =>
    [word "system.pc", word ".pci_host", word ": ", raw bus, word ": ",
     word (if isRead then "read: offset=0x" else "write: offset=0x"), hex offset.toNat,
     word ", size=0x", hex size.toNat]
  | clearInt bus => interface bus "clearInt"
  | postInt bus => interface bus "postInt"

/-- A whole line. -/
def text (timestamp : UInt64) (line : Gem5Line) : Bytes :=
  textOf (dec timestamp.toNat :: word ":" :: blanks 1 :: line.pieces)

def kind : Gem5Line → EventKind
  | adapter _ line => line.kind
  | conf _ isRead _ dev func reg numBytes data =>
    .hostConf dev func reg numBytes (data.getD 0) isRead
  | pciHost _ isRead offset size => .hostPciRW offset size isRead
  | clearInt _ => .hostClearInt
  | postInt _ => .hostPostInt

def values : Gem5Line → List UInt64
  | adapter _ line => line.values
  | conf _ _ _ dev func reg numBytes data => dev :: func :: reg :: numBytes :: data.toList
  | pciHost _ _ offset size => [offset, size]
  | clearInt _ | postInt _ => []

def ints : Gem5Line → List Int32
  | adapter _ line => line.ints
  | _ => []

/-- The bytes of an address on a bus. -/
def IsBus (bus : Bytes) : Prop := ∀ c ∈ bus, isDigitOf 16 c = true ∨ c ∈ bytes ":."

/-- No white space in the name of an adapter, and digits, colons and dots in an address. -/
def WellNamed : Gem5Line → Prop
  | adapter name _ | conf name .. => ∀ c ∈ name, isSpace c = false
  | pciHost bus .. | clearInt bus | postInt bus => IsBus bus

/-- No number is the largest one, and none that is read as an `int` is negative. -/
def InRange (line : Gem5Line) : Prop :=
  (∀ n ∈ line.values, n.toNat < ULONG_MAX) ∧ ∀ i ∈ line.ints, 0 ≤ i

end Gem5Line

open Gem5Adapter Gem5Line

section Adapter

variable {mem : Bytes} {id addr size offs : UInt64} {bar posted : Int32}

theorem returns_parseDma {s : String} {mk : UInt64 → UInt64 → UInt64 → EventKind}
    (hs : bytes s ≠ []) (hid : id.toNat < ULONG_MAX) (haddr : addr.toNat < ULONG_MAX)
    (hsize : size.toNat < ULONG_MAX) :
    Returns (AtText mem) (parseDma s mk) (textOf (word s :: dma id addr size))
      (mk id addr size) := by
  refine returns_string hs ?_
  refine returns_dec hid rfl ?_
  refine returns_string (by decide) ?_
  refine returns_hex haddr rfl ?_
  refine returns_string (by decide) ?_
  exact returns_dec hsize rfl Returns.pure

theorem returns_parseMmio_read (haddr : addr.toNat < ULONG_MAX) (hsize : size.toNat < ULONG_MAX)
    (hid : id.toNat < ULONG_MAX) (hbar : 0 ≤ bar) (hoffs : offs.toNat < ULONG_MAX) :
    Returns (AtText mem) (parseMmio true) (textOf (mmio addr size id bar offs))
      (.hostMmioR id addr size bar offs) := by
  refine returns_hex haddr rfl ?_
  refine returns_string (by decide) ?_
  refine returns_dec hsize rfl ?_
  refine returns_string (by decide) ?_
  refine returns_dec hid rfl ?_
  refine returns_string (by decide) ?_
  refine returns_int hbar rfl ?_
  refine returns_string (by decide) ?_
  exact returns_hex hoffs rfl Returns.pure

theorem returns_parseMmio_write (haddr : addr.toNat < ULONG_MAX) (hsize : size.toNat < ULONG_MAX)
    (hid : id.toNat < ULONG_MAX) (hbar : 0 ≤ bar) (hoffs : offs.toNat < ULONG_MAX)
    (hposted : 0 ≤ posted) :
    Returns (AtText mem) (parseMmio false)
      (textOf (mmio addr size id bar offs ++ [word " posted ", dec posted.toNatClampNeg]))
      (.hostMmioW id addr size bar offs (posted != 0)) := by
  refine returns_hex haddr rfl ?_
  refine returns_string (by decide) ?_
  refine returns_dec hsize rfl ?_
  refine returns_string (by decide) ?_
  refine returns_dec hid rfl ?_
  refine returns_string (by decide) ?_
  refine returns_int hbar rfl ?_
  refine returns_string (by decide) ?_
  refine returns_hex hoffs rfl ?_
  refine returns_string (by decide) ?_
  have hbool : Returns (AtText mem) parseBoolFromInt (textOf [dec posted.toNatClampNeg])
      (posted != 0) := returns_int hposted rfl Returns.pure
  exact hbool.bind fun _ => rfl

theorem returns_parseCompletion {s : String} {mk : UInt64 → EventKind} (hs : bytes s ≠ [])
    (hid : id.toNat < ULONG_MAX) :
    Returns (AtText mem) (parseCompletion s mk)
      (textOf [word s, word "completion id ", dec id.toNat]) (mk id) := by
  refine returns_string hs ?_
  refine returns_string (by decide) ?_
  exact returns_dec hid rfl Returns.pure

/-- An alternative that starts with another word refuses the line. -/
theorem refuses_parseCompletion {s t : String} {mk : UInt64 → EventKind} {ps : List Piece}
    (h : clashes s t = true) :
    Refuses (AtText mem) (parseCompletion s mk) (textOf (word t :: ps)) :=
  (refuses_string h).bind

theorem refuses_parseDma {s t : String} {mk : UInt64 → UInt64 → UInt64 → EventKind}
    {ps : List Piece} (h : clashes s t = true) :
    Refuses (AtText mem) (parseDma s mk) (textOf (word t :: ps)) :=
  (refuses_string h).bind

/-- Each line of the adapter is read by its own branch. -/
theorem returns_parseSimbricksPci {line : Gem5Adapter}
    (hvalues : ∀ n ∈ line.values, n.toNat < ULONG_MAX) (hints : ∀ i ∈ line.ints, 0 ≤ i) :
    Returns (AtText mem) parseSimbricksPci (textOf (blanks 1 :: line.pieces)) line.kind := by
  cases line with
  | sendingRead addr size id bar offs =>
    simp only [Gem5Adapter.values, List.forall_mem_cons] at hvalues
    obtain ⟨haddr, hsize, hid, hoffs, -⟩ := hvalues
    have hbar := hints bar List.mem_cons_self
    refine returns_trimL_blanks rfl ?_
    refine returns_branch_of_clashes rfl ?_
    refine returns_branch_string (by decide) ?_
    refine returns_branch_string (by decide) ?_
    exact returns_parseMmio_read haddr hsize hid hbar hoffs
  | sendingWrite addr size id bar offs posted =>
    simp only [Gem5Adapter.values, List.forall_mem_cons] at hvalues
    simp only [Gem5Adapter.ints, List.forall_mem_cons] at hints
    obtain ⟨haddr, hsize, hid, hoffs, -⟩ := hvalues
    refine returns_trimL_blanks rfl ?_
    refine returns_branch_of_clashes rfl ?_
    refine returns_branch_string (by decide) ?_
    refine returns_branch_of_clashes rfl ?_
    refine returns_branch_string (by decide) ?_
    exact returns_parseMmio_write haddr hsize hid hints.1 hoffs hints.2.1
  | immediateResponse =>
    refine returns_trimL_blanks rfl ?_
    refine returns_branch_of_clashes rfl ?_
    refine returns_branch_string (by decide) ?_
    refine returns_branch_of_clashes rfl ?_
    refine returns_branch_of_clashes rfl ?_
    exact returns_branch_string (by decide) Returns.pure
  | readCompletion id =>
    have hid := hvalues id List.mem_cons_self
    refine returns_trimL_blanks rfl ?_
    refine returns_branch_string (by decide) ?_
    refine Returns.orElse_right (refuses_parseCompletion rfl) ?_
    exact (returns_parseCompletion (by decide) hid).orElse
  | writeCompletion id =>
    have hid := hvalues id List.mem_cons_self
    refine returns_trimL_blanks rfl ?_
    refine returns_branch_string (by decide) ?_
    exact (returns_parseCompletion (by decide) hid).orElse
  | dmaRead id addr size =>
    simp only [Gem5Adapter.values, List.forall_mem_cons] at hvalues
    obtain ⟨hid, haddr, hsize, -⟩ := hvalues
    refine returns_trimL_blanks rfl ?_
    refine returns_branch_string (by decide) ?_
    refine Returns.orElse_right (refuses_parseCompletion rfl) ?_
    refine Returns.orElse_right (refuses_parseCompletion rfl) ?_
    refine returns_branch_string (by decide) ?_
    refine Returns.orElse_right (refuses_parseDma rfl) ?_
    exact returns_parseDma (by decide) hid haddr hsize
  | dmaWrite id addr size =>
    simp only [Gem5Adapter.values, List.forall_mem_cons] at hvalues
    obtain ⟨hid, haddr, hsize, -⟩ := hvalues
    refine returns_trimL_blanks rfl ?_
    refine returns_branch_string (by decide) ?_
    refine Returns.orElse_right (refuses_parseCompletion rfl) ?_
    refine Returns.orElse_right (refuses_parseCompletion rfl) ?_
    refine returns_branch_string (by decide) ?_
    exact (returns_parseDma (by decide) hid haddr hsize).orElse
  | msiX vec =>
    have hvec := hvalues vec List.mem_cons_self
    refine returns_trimL_blanks rfl ?_
    refine returns_branch_string (by decide) ?_
    refine Returns.orElse_right (refuses_parseCompletion rfl) ?_
    refine Returns.orElse_right (refuses_parseCompletion rfl) ?_
    refine returns_branch_of_clashes rfl ?_
    refine returns_till rfl ?_
    exact returns_dec hvec rfl Returns.pure
  | completedDma id =>
    have hid := hvalues id List.mem_cons_self
    refine returns_trimL_blanks rfl ?_
    refine returns_branch_of_clashes rfl ?_
    refine returns_branch_of_clashes rfl ?_
    refine returns_string (by decide) ?_
    exact returns_dec hid rfl Returns.pure

end Adapter

section Component

variable {mem : Bytes} {parser : Gem5Parser}

theorem filtered_of_empty (hempty : parser.componentTable = ∅) (comp : String) :
    parser.filtered comp = pure () := by
  simp [filtered, ComponentFilter.filter, hempty]

theorem reads_filtered {s comp : String} (hs : bytes s ≠ []) (hempty : parser.componentTable = ∅) :
    Reads (AtText mem)
      (do
        consumeAndTrimString (bytes s)
        parser.filtered comp) (bytes s) () fun _ => True := by
  have hread : Reads (AtText mem) _ (bytes s ++ []) () fun _ => True :=
    (reads_consumeAndTrimString hs).seq (f := fun _ => parser.filtered comp)
      (by rw [filtered_of_empty hempty]; exact Reads.pure)
  rwa [List.append_nil] at hread

theorem returns_parseConfData {data : Option UInt64}
    (hdata : ∀ n ∈ data.toList, n.toNat < ULONG_MAX) :
    Returns (AtText mem) parseConfData (textOf (confData data)) (data.getD 0) := by
  cases data with
  | some data =>
    have hhex : Returns (AtText mem) (parseUintTrim 16) (textOf [hex data.toNat]) data :=
      (reads_parseUintTrim (.inr rfl) data (hdata data List.mem_cons_self)).returns stopsAlnum_nil
    exact (returns_string (by decide) hhex).orElse
  | none =>
    refine Returns.orElse_right (refuses_consumeAndTrimString (by decide)).bind ?_
    exact (reads_consumeAndTrimChar (byte '0')).bind_returns Returns.pure trivial

theorem returns_parseConf {isRead : Bool} {gap : ℕ} {dev func reg numBytes : UInt64}
    {data : Option UInt64}
    (hvalues : ∀ n ∈ dev :: func :: reg :: numBytes :: data.toList, n.toNat < ULONG_MAX) :
    Returns (AtText mem) (parseConf isRead)
      (textOf (blanks gap :: word "dev " :: dec dev.toNat :: word " func " :: dec func.toNat ::
        word " reg 0x" :: hex reg.toNat :: word " " :: dec numBytes.toNat ::
        word " bytes: data = " :: confData data))
      (.hostConf dev func reg numBytes (data.getD 0) isRead) := by
  simp only [List.forall_mem_cons] at hvalues
  obtain ⟨hdev, hfunc, hreg, hbytes, hdata⟩ := hvalues
  refine returns_trimL_blanks rfl ?_
  refine returns_string (by decide) ?_
  refine returns_dec hdev rfl ?_
  refine returns_string (by decide) ?_
  refine returns_dec hfunc rfl ?_
  refine returns_string (by decide) ?_
  refine returns_hex hreg rfl ?_
  refine (reads_consumeAndTrimChar (byte ' ')).bind_returns ?_ trivial
  refine returns_dec hbytes rfl ?_
  refine returns_string (by decide) ?_
  exact (returns_parseConfData hdata).bind fun _ => rfl

theorem returns_parsePciRW {isRead : Bool} {offset size : UInt64}
    (hoffset : offset.toNat < ULONG_MAX) (hsize : size.toNat < ULONG_MAX) :
    Returns (AtText mem) (parsePciRW isRead)
      (textOf [hex offset.toNat, word ", size=0x", hex size.toNat])
      (.hostPciRW offset size isRead) := by
  refine returns_hex hoffset rfl ?_
  refine returns_string (by decide) ?_
  exact returns_hex hsize rfl Returns.pure

theorem fills_bus {bus : Bytes} (hbus : IsBus bus) (ps : List Piece) :
    Fills (lineShape [word ": "] ++
        .hole (fun c => isDigitOf 16 c || (bytes ":.").contains c) :: lineShape (word ": " :: ps))
      (textOf (word ": " :: raw bus :: word ": " :: ps)) := by
  refine (fills_lineShape [word ": "]).append (.hole (fun c hc => ?_) (fills_lineShape _))
  simpa [List.contains_eq_mem] using hbus c hc

theorem returns_parseSystemPcPciHost {bus : Bytes} {isRead : Bool} {offset size : UInt64}
    (hbus : IsBus bus) (hoffset : offset.toNat < ULONG_MAX) (hsize : size.toNat < ULONG_MAX) :
    Returns (AtText mem) parseSystemPcPciHost
      (textOf [word ": ", raw bus, word ": ",
        word (if isRead then "read: offset=0x" else "write: offset=0x"), hex offset.toNat,
        word ", size=0x", hex size.toNat])
      (.hostPciRW offset size isRead) := by
  have htext : ∀ kw : String, textOf [word ": ", raw bus, word ": ", word kw, hex offset.toNat,
      word ", size=0x", hex size.toNat] = textOf [word ": ", raw bus, word ": ", word kw] ++
        textOf [hex offset.toNat, word ", size=0x", hex size.toNat] := fun kw => by simp
  cases isRead with
  | true =>
    rw [if_pos rfl, htext]
    refine (reads_of_finds (by decide) (fills_bus hbus [word "read: offset=0x"]) rfl).branch ?_
      trivial
    exact returns_parsePciRW hoffset hsize
  | false =>
    rw [if_neg (by decide)]
    refine (refuses_of_absent (not_infix_of_shape (fills_bus hbus _) rfl)).branch ?_
    rw [htext]
    refine (reads_of_finds (by decide) (fills_bus hbus [word "write: offset=0x"]) rfl).branch ?_
      trivial
    exact returns_parsePciRW hoffset hsize

theorem isSpace_of_all {s : String} (h : ((bytes s).all fun c => !isSpace c) = true) :
    ∀ c ∈ bytes s, isSpace c = false := by
  simpa using List.all_eq_true.mp h

theorem isSpace_of_isBus {bus : Bytes} (hbus : IsBus bus) :
    ∀ c ∈ bytes "[" ++ (bus ++ bytes "]:"), isSpace c = false := by
  refine List.forall_mem_append.mpr ⟨isSpace_of_all rfl, List.forall_mem_append.mpr
    ⟨fun c hc => ?_, isSpace_of_all rfl⟩⟩
  rcases hbus c hc with hdigit | hsep
  · exact isSpace_of_isAlnum (numberClass_of_isDigitOf (.inr rfl) hdigit)
  · exact isSpace_of_all rfl c hsep

/-- A line of the adapter is left to its parser at the name. -/
theorem returns_simbricks {name : Bytes} {ps : List Piece} {a : EventKind}
    (hempty : parser.componentTable = ∅)
    (hps : Returns (AtText mem) parseSystemPcSimbricks
      (textOf (raw (name ++ bytes ":") :: blanks 1 :: ps)) a) :
    Returns (AtText mem) parser.parseKind (textOf (simbricks name ps)) a := by
  refine (refuses_string rfl).bind.branch ?_
  refine (refuses_string rfl).bind.branch ?_
  refine returns_branch_string (by decide) ?_
  refine returns_branch_of_clashes rfl ?_
  exact (reads_filtered (by decide) hempty).branch hps trivial

theorem returns_interface {bus : Bytes} {s : String} {a : EventKind}
    (hempty : parser.componentTable = ∅)
    (hps : Returns (AtText mem) parseSystemPcPciHostInterface
      (textOf [raw (bytes "[" ++ (bus ++ bytes "]:")), blanks 1, word s]) a) :
    Returns (AtText mem) parser.parseKind (textOf (interface bus s)) a := by
  refine (refuses_string rfl).bind.branch ?_
  refine (refuses_string rfl).bind.branch ?_
  refine returns_branch_string (by decide) ?_
  refine returns_branch_string (by decide) ?_
  exact (reads_filtered (by decide) hempty).branch hps trivial

/-- The branch of the component is taken, and its line is read. -/
theorem returns_parseKind_gem5 {line : Gem5Line} (hempty : parser.componentTable = ∅)
    (hnamed : line.WellNamed) (h : line.InRange) :
    Returns (AtText mem) parser.parseKind (textOf line.pieces) line.kind := by
  obtain ⟨hvalues, hints⟩ := h
  have hcolon : ∀ {name : Bytes}, (∀ c ∈ name, isSpace c = false) →
      ∀ c ∈ name ++ bytes ":", isSpace c = false := by
    intro name hname
    exact List.forall_mem_append.mpr ⟨hname, isSpace_of_all rfl⟩
  cases line with
  | adapter name line =>
    refine returns_simbricks hempty ?_
    refine returns_skipTill (hcolon hnamed) ?_
    refine returns_trimL_blanks rfl ?_
    refine returns_branch_of_clashes rfl ?_
    refine returns_branch_of_clashes rfl ?_
    refine returns_branch_string (by decide) ?_
    exact returns_parseSimbricksPci hvalues hints
  | conf name isRead gap dev func reg numBytes data =>
    refine returns_simbricks hempty ?_
    refine returns_skipTill (hcolon hnamed) ?_
    cases isRead with
    | true =>
      refine returns_trimL_blanks rfl ?_
      refine returns_branch_string (by decide) ?_
      exact returns_parseConf hvalues
    | false =>
      refine returns_trimL_blanks rfl ?_
      refine returns_branch_of_clashes rfl ?_
      refine returns_branch_string (by decide) ?_
      exact returns_parseConf hvalues
  | pciHost bus isRead offset size =>
    simp only [Gem5Line.values, List.forall_mem_cons] at hvalues
    refine (refuses_string rfl).bind.branch ?_
    refine (refuses_string rfl).bind.branch ?_
    refine returns_branch_string (by decide) ?_
    refine returns_branch_string (by decide) ?_
    refine (refuses_string rfl).bind.branch ?_
    rw [filtered_of_empty hempty, Scan.pure_bind]
    exact returns_parseSystemPcPciHost hnamed hvalues.1 hvalues.2.1
  | clearInt bus =>
    refine returns_interface hempty ?_
    refine returns_skipTill (isSpace_of_isBus hnamed) ?_
    refine returns_trimL_blanks rfl ?_
    exact returns_branch_string (by decide) Returns.pure
  | postInt bus =>
    refine returns_interface hempty ?_
    refine returns_skipTill (isSpace_of_isBus hnamed) ?_
    refine returns_trimL_blanks rfl ?_
    refine returns_branch_of_clashes rfl ?_
    exact returns_branch_string (by decide) Returns.pure

end Component

/-- A line of the log is read back as the event of its kind, with its time stamp and
values, where every component passes the filter. -/
theorem parseEvent_gem5Line (parser : Gem5Parser) (timestamp : UInt64) (line : Gem5Line)
    (mem : Bytes) (hempty : parser.componentTable = ∅) (hts : timestamp.toNat < ULONG_MAX)
    (hnamed : line.WellNamed) (h : line.InRange) :
    (parser.parseEvent (.ofLine (line.text timestamp) (kLineEnd :: mem))).1 =
      some (parser.event timestamp line.kind) := by
  have hv := atText_ofLine (line.text timestamp) mem
  have hne : line.text timestamp ≠ [] := by
    simp [Gem5Line.text, Piece.text, numText_ne_nil]
  obtain ⟨ps, hps⟩ : ∃ ps, line.pieces = word "system.pc" :: ps := by
    cases line <;> exact ⟨_, rfl⟩
  have hkind : Returns (AtText mem)
      (do
        trimL
        let kind ← parser.parseKind
        pure (parser.event timestamp kind))
      (textOf (blanks 1 :: line.pieces)) (parser.event timestamp line.kind) := by
    have hread := (returns_parseKind_gem5 hempty hnamed h : Returns (AtText mem) _ _ _)
    rw [hps] at hread ⊢
    refine returns_trimL_blanks rfl ?_
    exact hread.bind fun _ => rfl
  rw [Gem5Parser.parseEvent, hv.isEmpty_eq hne, if_neg (by decide)]
  refine (show Returns (AtText mem) _ _ _ from ?_) _ hv
  refine returns_parseTimestamp hts rfl ?_
  exact (reads_consumeAndTrimChar (byte ':')).bind_returns hkind trivial

theorem parseEvent_gem5Line_write :
    (Gem5Parser.parseEvent ⟨⟨bytes "gem5", 0⟩, ∅, []⟩
        (.ofLine (Gem5Line.text 1967474400999 (adapter (bytes "_0") (sendingWrite 0xc0400010 4
          94469376954304 0 0 1))) (kLineEnd :: []))).1 =
      some ⟨1967474400999, 0, bytes "gem5", .hostMmioW 94469376954304 0xc0400010 4 0 0 true⟩ :=
  parseEvent_gem5Line _ _ _ _ rfl (by decide) (isSpace_of_all rfl : ∀ c ∈ bytes "_0", _)
    ⟨by simp [Gem5Line.values, Gem5Adapter.values, ULONG_MAX],
      by simp [Gem5Line.ints, Gem5Adapter.ints]⟩

example : Gem5Line.text 70 (conf (bytes "_0") false 1 0 0 4 4 none) =
    bytes "70: system.pc.simbricks_0: writeConfig: dev 0 func 0 reg 0x4 4 bytes: data = 0" := by
  decide

end Columbo
