import Columbo.LinePieces
import Columbo.NicBmParser

/-!
# Lines of a nicbm log

Every kind of line is read back with all its values. A search that finds nothing
leaves the cursor where it is, and the words that are tried before those of a
line do not occur in it: most of them have a byte that neither the words of the
line nor its values have.
-/
namespace Columbo

open Piece LogParser NicBmParser

/-- What a line says behind the name of the simulator. -/
inductive NicBmLine
  | read (off len val : UInt64)
  | write (off len val posted : UInt64)
  | issuing (op addr len pending : UInt64)
  | executing (op addr len pending : UInt64)
  | enqueuing (op addr len pending : UInt64)
  | completedRead (op addr len : UInt64)
  | completedWrite (op addr len : UInt64)
  | msi (isX : Bool) (vec : UInt16)
  | tx (len : UInt64)
  | rx (port : Int32) (len : UInt64)

namespace NicBmLine

def offLenVal (off len val : UInt64) : List Piece :=
  [word "off=0x", hex off.toNat, word ", len=", dec len.toNat, word ", val=0x", hex val.toNat]

def opAddrLen (op addr len : UInt64) : List Piece :=
  [word " op 0x", hex op.toNat, word " addr ", hex addr.toNat, word " len ", dec len.toNat]

def pending (n : UInt64) : List Piece := [word " pending ", dec n.toNat]

def pieces : NicBmLine → List Piece
  | read off len val => word ": read(" :: (offLenVal off len val ++ [word ")"])
  | write off len val posted =>
    word ": write(" :: (offLenVal off len val ++ [word ", posted=", dec posted.toNat, word ")"])
  | issuing op addr len n => word ": issuing dma" :: (opAddrLen op addr len ++ pending n)
  | executing op addr len n => word ": executing dma" :: (opAddrLen op addr len ++ pending n)
  | enqueuing op addr len n => word ": enqueuing dma" :: (opAddrLen op addr len ++ pending n)
  | completedRead op addr len =>
    word ": completed dma" :: word " read" :: opAddrLen op addr len
  | completedWrite op addr len =>
    word ": completed dma" :: word " write" :: opAddrLen op addr len
  | msi true vec => [word ": issue MSI", word "-X interrupt vec ", dec vec.toNat]
  | msi false vec => [word ": issue MSI", word " interrupt vec ", dec vec.toNat]
  | tx len => [word ": eth", word " tx: len ", dec len.toNat]
  | rx port len =>
    [word ": eth", word " rx: port ", dec port.toNatClampNeg, word " len ", dec len.toNat]

/-- A whole line. -/
def text (timestamp : UInt64) (line : NicBmLine) : Bytes :=
  textOf (word "main_time" :: word " = " :: dec timestamp.toNat :: word ": nicbm" :: line.pieces)

def kind : NicBmLine → EventKind
  | read off len val => .nicMmioR off len val
  | write off len val posted => .nicMmioW off len val (posted != 0)
  | issuing op addr len _ => .nicDmaI op addr len
  | executing op addr len _ => .nicDmaEx op addr len
  | enqueuing op addr len _ => .nicDmaEn op addr len
  | completedRead op addr len => .nicDmaCR op addr len
  | completedWrite op addr len => .nicDmaCW op addr len
  | msi isX vec => .nicMsix vec isX
  | tx len => .nicTx len
  | rx port len => .nicRx port len

/-- The numbers of 64 bits in a line. -/
def values : NicBmLine → List UInt64
  | read off len val => [off, len, val]
  | write off len val posted => [off, len, val, posted]
  | issuing op addr len n | executing op addr len n | enqueuing op addr len n => [op, addr, len, n]
  | completedRead op addr len | completedWrite op addr len => [op, addr, len]
  | msi _ _ => []
  | tx len | rx _ len => [len]

def ports : NicBmLine → List Int32
  | rx port _ => [port]
  | _ => []

/-- No number is the largest one, and no port is negative. -/
def InRange (line : NicBmLine) : Prop :=
  (∀ n ∈ line.values, n.toNat < ULONG_MAX) ∧ ∀ port ∈ line.ports, 0 ≤ port

end NicBmLine

open NicBmLine

section Fields

variable {mem : Bytes} {off len val op addr n : UInt64}

theorem reads_parseOffLenValComma (hoff : off.toNat < ULONG_MAX) (hlen : len.toNat < ULONG_MAX)
    (hval : val.toNat < ULONG_MAX) :
    Reads (AtText mem) parseOffLenValComma (textOf (offLenVal off len val)) (off, len, val)
      StopsAlnum := by
  refine reads_till rfl ?_
  refine reads_hex hoff rfl ?_
  refine reads_till rfl ?_
  refine reads_dec hlen rfl ?_
  refine reads_till rfl ?_
  exact reads_hex hval rfl Reads.pure

theorem reads_parseOpAddrLen (hop : op.toNat < ULONG_MAX) (haddr : addr.toNat < ULONG_MAX)
    (hlen : len.toNat < ULONG_MAX) :
    Reads (AtText mem) parseOpAddrLen (textOf (opAddrLen op addr len)) (op, addr, len)
      StopsAlnum := by
  refine reads_till rfl ?_
  refine reads_hex hop rfl ?_
  refine reads_till rfl ?_
  refine reads_hex haddr rfl ?_
  refine reads_till rfl ?_
  exact reads_dec hlen rfl Reads.pure

theorem reads_parseDma {mk : UInt64 → UInt64 → UInt64 → EventKind}
    (hop : op.toNat < ULONG_MAX) (haddr : addr.toNat < ULONG_MAX) (hlen : len.toNat < ULONG_MAX) :
    Reads (AtText mem) (parseDma mk false) (textOf (opAddrLen op addr len)) (mk op addr len)
      StopsAlnum :=
  ((reads_parseOpAddrLen hop haddr hlen).map _).map _

theorem reads_parseDma_pending {mk : UInt64 → UInt64 → UInt64 → EventKind}
    (hop : op.toNat < ULONG_MAX) (haddr : addr.toNat < ULONG_MAX) (hlen : len.toNat < ULONG_MAX)
    (hn : n.toNat < ULONG_MAX) :
    Reads (AtText mem) (parseDma mk true) (textOf (opAddrLen op addr len ++ pending n))
      (mk op addr len) StopsAlnum := by
  have hpending : Reads (AtText mem) (parseOpAddrLenPending true)
      (textOf (opAddrLen op addr len ++ pending n)) (op, addr, len) StopsAlnum := by
    rw [textOf_append]
    refine (reads_parseOpAddrLen hop haddr hlen).bind ?_ fun rest _ => stopsAlnum_of_stops rfl ‹_›
    refine reads_till rfl ?_
    exact reads_dec hn rfl Reads.pure
  exact hpending.map _

theorem reads_parseVec {isX : Bool} (vec : UInt16) :
    Reads (AtText mem) (parseVec isX) (textOf [dec vec.toNat]) (.nicMsix vec isX) StopsAlnum := by
  have hvec : vec.toUInt64.toNat < ULONG_MAX := by
    have hlt := vec.toNat_lt
    rw [UInt16.toNat_toUInt64]
    unfold ULONG_MAX
    omega
  have hread : Reads (AtText mem) (parseVec isX) (textOf [dec vec.toUInt64.toNat])
      (.nicMsix vec.toUInt64.toUInt16 isX) StopsAlnum := reads_dec hvec rfl Reads.pure
  rwa [UInt16.toNat_toUInt64, UInt16.toUInt16_toUInt64] at hread

/-- The cascade finds the kind of the line and its values. -/
theorem returns_parseKind {line : NicBmLine} (h : line.InRange) :
    Returns (AtText mem) NicBmParser.parseKind (textOf line.pieces) line.kind := by
  obtain ⟨hvalues, hports⟩ := h
  cases line with
  | read off len val =>
    simp only [values, List.forall_mem_cons] at hvalues
    obtain ⟨hoff, hlen, hval, -⟩ := hvalues
    have hread : Reads (AtText mem) parseRead (textOf (offLenVal off len val))
        (.nicMmioR off len val) StopsAlnum := (reads_parseOffLenValComma hoff hlen hval).map _
    refine returns_branch_of_lacks rfl ?_
    refine returns_branch rfl ?_
    exact returns_of_reads hread rfl
  | write off len val posted =>
    simp only [values, List.forall_mem_cons] at hvalues
    obtain ⟨hoff, hlen, hval, hposted, -⟩ := hvalues
    have hbool : Reads (AtText mem) (parseBoolFromUint 10) (textOf [dec posted.toNat])
        (posted != 0) StopsAlnum := reads_dec hposted rfl Reads.pure
    have hrest : Reads (AtText mem)
        (do
          consumeAndTrimTillString (bytes "posted=")
          let posted ← parseBoolFromUint 10
          pure (EventKind.nicMmioW off len val posted))
        (textOf [word ", posted=", dec posted.toNat]) (.nicMmioW off len val (posted != 0))
        StopsAlnum := reads_till rfl (hbool.map _)
    have hwrite : Reads (AtText mem) parseWrite
        (textOf (offLenVal off len val ++ [word ", posted=", dec posted.toNat]))
        (.nicMmioW off len val (posted != 0)) StopsAlnum := by
      rw [textOf_append]
      exact (reads_parseOffLenValComma hoff hlen hval).bind hrest fun rest hr =>
        stopsAlnum_of_stops rfl hr
    refine returns_branch_of_lacks rfl ?_
    refine returns_branch_of_lacks rfl ?_
    refine returns_branch rfl ?_
    have hreturns : Returns (AtText mem) parseWrite (textOf (_ ++ [word ")"])) _ :=
      returns_of_reads hwrite rfl
    rwa [List.append_assoc] at hreturns
  | issuing op addr len n =>
    simp only [values, List.forall_mem_cons] at hvalues
    obtain ⟨hop, haddr, hlen, hn, -⟩ := hvalues
    iterate 3 refine returns_branch_of_lacks rfl ?_
    refine returns_branch rfl ?_
    exact returns_of_reads_all (reads_parseDma_pending hop haddr hlen hn)
  | executing op addr len n =>
    simp only [values, List.forall_mem_cons] at hvalues
    obtain ⟨hop, haddr, hlen, hn, -⟩ := hvalues
    iterate 4 refine returns_branch_of_lacks rfl ?_
    refine returns_branch rfl ?_
    exact returns_of_reads_all (reads_parseDma_pending hop haddr hlen hn)
  | enqueuing op addr len n =>
    simp only [values, List.forall_mem_cons] at hvalues
    obtain ⟨hop, haddr, hlen, hn, -⟩ := hvalues
    iterate 5 refine returns_branch_of_lacks rfl ?_
    refine returns_branch rfl ?_
    exact returns_of_reads_all (reads_parseDma_pending hop haddr hlen hn)
  | completedRead op addr len =>
    simp only [values, List.forall_mem_cons] at hvalues
    obtain ⟨hop, haddr, hlen, -⟩ := hvalues
    iterate 6 refine returns_branch_of_lacks rfl ?_
    refine returns_branch rfl ?_
    refine returns_branch rfl ?_
    exact returns_of_reads_all (reads_parseDma hop haddr hlen)
  | completedWrite op addr len =>
    simp only [values, List.forall_mem_cons] at hvalues
    obtain ⟨hop, haddr, hlen, -⟩ := hvalues
    iterate 6 refine returns_branch_of_lacks rfl ?_
    refine returns_branch rfl ?_
    refine returns_branch_of_lacks rfl ?_
    refine returns_branch rfl ?_
    exact returns_of_reads_all (reads_parseDma hop haddr hlen)
  | msi isX vec =>
    cases isX with
    | true =>
      iterate 7 refine returns_branch_of_lacks rfl ?_
      refine returns_branch rfl ?_
      refine returns_branch rfl ?_
      exact returns_of_reads_all (reads_parseVec vec)
    | false =>
      iterate 7 refine returns_branch_of_lacks rfl ?_
      refine returns_branch rfl ?_
      refine returns_branch_of_lacks rfl ?_
      refine returns_branch rfl ?_
      exact returns_of_reads_all (reads_parseVec vec)
  | tx len =>
    simp only [values, List.forall_mem_cons] at hvalues
    have htx : Reads (AtText mem) parseTx (textOf [dec len.toNat]) (.nicTx len) StopsAlnum :=
      reads_dec hvalues.1 rfl Reads.pure
    iterate 8 refine returns_branch_of_lacks rfl ?_
    refine returns_branch rfl ?_
    refine returns_branch rfl ?_
    exact returns_of_reads_all htx
  | rx port len =>
    simp only [values, List.forall_mem_cons] at hvalues
    have hport := hports port List.mem_cons_self
    have hrx : Reads (AtText mem) parseRx
        (textOf [dec port.toNatClampNeg, word " len ", dec len.toNat]) (.nicRx port len)
        StopsAlnum :=
      reads_int hport rfl (reads_till rfl (reads_dec hvalues.1 rfl Reads.pure))
    iterate 8 refine returns_branch_of_lacks rfl ?_
    refine returns_branch rfl ?_
    refine returns_branch_of_lacks rfl ?_
    refine returns_branch rfl ?_
    exact returns_of_reads_all hrx

end Fields

/-- A line of the log is read back as the event of its kind, with its time stamp and values. -/
theorem parseEvent_nicBmLine (parser : LogParser) (timestamp : UInt64) (line : NicBmLine)
    (mem : Bytes) (hts : timestamp.toNat < ULONG_MAX) (h : line.InRange) :
    (NicBmParser.parseEvent parser (.ofLine (line.text timestamp) (kLineEnd :: mem))).1 =
      some (parser.event timestamp line.kind) := by
  have hv := atText_ofLine (line.text timestamp) mem
  have hne : line.text timestamp ≠ [] := List.cons_ne_nil _ _
  rw [NicBmParser.parseEvent, hv.isEmpty_eq hne, if_neg (by decide)]
  refine (show Returns (AtText mem) _ _ _ from ?_) _ hv
  refine returns_trimL rfl ?_
  refine returns_till rfl ?_
  refine returns_string (by decide) ?_
  refine returns_parseTimestamp hts rfl ?_
  refine returns_till rfl ?_
  exact (returns_parseKind h).bind fun _ => rfl

theorem parseEvent_nicBmLine_rx :
    (NicBmParser.parseEvent ⟨bytes "nic", 3⟩
        (.ofLine (text 1905164778000 (rx 0 1514)) (kLineEnd :: []))).1 =
      some ⟨1905164778000, 3, bytes "nic", .nicRx 0 1514⟩ :=
  parseEvent_nicBmLine _ _ _ _ (by decide)
    ⟨by simp [values, ULONG_MAX], by simp [ports]⟩

example : text 70 (write 64 4 255 1) =
    bytes "main_time = 70: nicbm: write(off=0x40, len=4, val=0xff, posted=1)" := by decide

end Columbo
