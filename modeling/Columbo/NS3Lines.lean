import Columbo.LinePieces
import Columbo.NetworkEventRoundTrip
import Columbo.NS3Parser

/-!
# Lines of an ns-3 log

A header that is tried leaves its bracket in front of the rest of the line, or takes away
the blank in front of a header that it is not. Behind every combination of headers that
are present and absent the next one is found if it is there, and none is found in the
text of another one.
-/
namespace Columbo

open Piece LogParser NS3Parser Occurrence

/-- What happens to the packet, by the first character of the line. -/
inductive NS3Action
  | enqueue
  | dequeue
  | drop

namespace NS3Action

def text : NS3Action → String
  | enqueue => "+"
  | dequeue => "-"
  | drop => "d"

def type : NS3Action → EventType
  | enqueue => .kNetworkEnqueueT
  | dequeue => .kNetworkDequeueT
  | drop => .kNetworkDropT

def kind : NS3Action → NetworkEvent → EventKind
  | enqueue => .networkEnqueue
  | dequeue => .networkDequeue
  | drop => .networkDrop

end NS3Action

/-- The end of the path of a device. -/
inductive NS3Path
  | rxPacketFromAdapter
  | txPacketToAdapter
  | rxPacketFromNetwork
  | txPacketToNetwork
  | txPacketToAttachedDevice
  | txQueueEnqueue
  | txQueueDequeue

namespace NS3Path

def text : NS3Path → String
  | rxPacketFromAdapter => "/RxPacketFromAdapter"
  | txPacketToAdapter => "/TxPacketToAdapter"
  | rxPacketFromNetwork => "/RxPacketFromNetwork"
  | txPacketToNetwork => "/TxPacketToNetwork"
  | txPacketToAttachedDevice => "/TxPacketToAttachedDevice"
  | txQueueEnqueue => "/TxQueue/Enqueue"
  | txQueueDequeue => "/TxQueue/Dequeue"

def boundaryType : NS3Path → EventBoundaryType
  | rxPacketFromAdapter => .kFromAdapter
  | txPacketToAdapter => .kToAdapter
  | _ => .kWithinSimulator

/-- What is left of the path when it was searched for an adapter. -/
def left : NS3Path → String
  | rxPacketFromAdapter | txPacketToAdapter => ""
  | path => path.text

end NS3Path

def deviceText : NetworkDeviceType → String
  | .kSimpleNetDevice => "/$ns3::SimpleNetDevice"
  | .kCosimNetDevice => "/$ns3::CosimNetDevice"

/-- An Ethernet header; some lines have a blank in front of its bracket. -/
structure NS3Ethernet where
  header : EthernetHeader
  blank : Bool

def NS3Ethernet.pieces (x : NS3Ethernet) : List Piece :=
  [word "ns3::EthernetHeader", word (if x.blank then " ( length/type=0x" else "( length/type=0x"),
   hex x.header.lengthType.toNat, word ", source=", mac x.header.srcMac, word ", destination=",
   mac x.header.dstMac]

/-- An ARP header with the addresses that are not decoded. Only a reply has the address
of its destination. -/
structure NS3Arp where
  header : ArpHeader
  srcMac : MacAddress
  dstMac : MacAddress

namespace NS3Arp

def sourcePieces (x : NS3Arp) : List Piece :=
  [word " source mac: 00-06-", mac x.srcMac, word " source ipv4: "]

def destPieces (x : NS3Arp) : List Piece :=
  if x.header.isRequest then [word " dest ipv4: "]
  else [word " dest mac: 00-06-", mac x.dstMac, word " dest ipv4: "]

def addressPieces (x : NS3Arp) : List Piece :=
  x.sourcePieces ++ ip x.header.srcIp :: (x.destPieces ++ [ip x.header.dstIp])

def pieces (x : NS3Arp) : List Piece :=
  word "ns3::ArpHeader" :: word "(" :: word (if x.header.isRequest then "request" else "reply") ::
    x.addressPieces

end NS3Arp

/-- An IPv4 header with the numbers and the flag that are not decoded. -/
structure NS3Ip where
  header : Ipv4Header
  tos : ℕ
  ttl : ℕ
  id : ℕ
  protocol : ℕ
  offset : ℕ
  dontFragment : Bool

namespace NS3Ip

def leadPieces (x : NS3Ip) : List Piece :=
  [word " (tos 0x", hex x.tos, word " DSCP Default ECN Not-ECT ttl ", dec x.ttl, word " id ",
   dec x.id, word " protocol ", dec x.protocol, word " offset (bytes) ", dec x.offset,
   word (if x.dontFragment then " flags [DF] length: " else " flags [none] length: ")]

def pieces (x : NS3Ip) : List Piece :=
  word "ns3::Ipv4Header" :: (x.leadPieces ++ [dec x.header.length.toNat, blanks 1,
    ip x.header.srcIp, blanks 1, word ">", blanks 1, ip x.header.dstIp])

end NS3Ip

def payloadPieces (size : UInt64) : List Piece := [word "Payload (size=", dec size.toNat]

/-- A part of the line with its blank and its bracket, where it is present. -/
def partPieces {α : Type} (pieces : α → List Piece) : Option α → List Piece
  | some x => word " " :: (pieces x ++ [word ")"])
  | none => []

structure NS3Line where
  action : NS3Action
  timestamp : UInt64
  node : Int32
  device : Int32
  deviceType : NetworkDeviceType
  path : NS3Path
  packetUid : UInt64
  interesting : Bool
  ethernet : Option NS3Ethernet
  arp : Option NS3Arp
  ip : Option NS3Ip
  payload : Option UInt64

namespace NS3Line

def ipAndPayload (line : NS3Line) : List Piece :=
  partPieces NS3Ip.pieces line.ip ++ partPieces payloadPieces line.payload

def behindEthernet (line : NS3Line) : List Piece :=
  partPieces NS3Arp.pieces line.arp ++ line.ipAndPayload

def headers (line : NS3Line) : List Piece :=
  partPieces NS3Ethernet.pieces line.ethernet ++ line.behindEthernet

def uidPieces (line : NS3Line) : List Piece :=
  [word " Packet-Uid=", dec line.packetUid.toNat, word " Intersting=",
   word (if line.interesting then "true" else "false")]

def pieces (line : NS3Line) : List Piece :=
  word line.action.text :: blanks 2 :: dec line.timestamp.toNat ::
    word " /$ns3::NodeListPriv/NodeList/" :: dec line.node.toNatClampNeg ::
    word "/$ns3::Node/DeviceList/" :: dec line.device.toNatClampNeg ::
    word (deviceText line.deviceType) :: word line.path.text :: (line.uidPieces ++ line.headers)

def text (line : NS3Line) : Bytes := textOf line.pieces

def net (line : NS3Line) : NetworkEvent where
  node := line.node
  device := line.device
  deviceType := line.deviceType
  packetUid := line.packetUid
  interestingFlag := line.interesting
  payloadSize := line.payload.getD 0
  boundaryType := line.path.boundaryType
  ethernetHeader := line.ethernet.map NS3Ethernet.header
  arpHeader := line.arp.map NS3Arp.header
  ipHeader := line.ip.map NS3Ip.header

/-- Node and device are not negative, and no number of 64 bits is the largest one. -/
structure InRange (line : NS3Line) : Prop where
  timestamp : line.timestamp.toNat < ULONG_MAX
  node : 0 ≤ line.node
  device : 0 ≤ line.device
  packetUid : line.packetUid.toNat < ULONG_MAX
  lengthType : ∀ x ∈ line.ethernet, x.header.lengthType.toNat < ULONG_MAX
  length : ∀ x ∈ line.ip, x.header.length.toNat < ULONG_MAX
  payload : ∀ size ∈ line.payload, size.toNat < ULONG_MAX

end NS3Line

section Headers

variable {mem : Bytes} {lead : String}

theorem reads_ns3Ethernet (x : NS3Ethernet) (hlead : lead = "" ∨ lead = ") ")
    (hlength : x.header.lengthType.toNat < ULONG_MAX) :
    Reads (AtText mem) parseEthernetHeader (textOf (word lead :: x.pieces)) x.header
      StopsAlnum := by
  refine reads_seek [word lead, word "ns3::EthernetHeader"] ?_ ?_
  · rcases hlead with rfl | rfl <;> rfl
  refine reads_till ?_ ?_
  · cases x.blank <;> rfl
  refine reads_hex hlength rfl ?_
  refine reads_till rfl ?_
  refine reads_mac rfl ?_
  refine reads_till rfl ?_
  exact reads_mac rfl Reads.pure

theorem reads_ns3Ip (x : NS3Ip) (hlead : lead = "" ∨ lead = ") ")
    (hlength : x.header.length.toNat < ULONG_MAX) :
    Reads (AtText mem) parseIpHeader (textOf (word lead :: x.pieces)) x.header StopsAlnum := by
  refine reads_seek [word lead, word "ns3::Ipv4Header"] ?_ ?_
  · rcases hlead with rfl | rfl <;> rfl
  refine reads_seek x.leadPieces ?_ ?_
  · rw [NS3Ip.leadPieces]
    cases x.dontFragment <;> rfl
  refine reads_dec hlength rfl ?_
  refine reads_trimL_ip ?_
  refine reads_ip rfl ?_
  refine reads_trimL_word rfl ?_
  refine Reads.seq (u := textOf [blanks 1, ip x.header.dstIp])
    (reads_consumeAndTrimChar (byte '>')) ?_
  refine reads_trimL_ip ?_
  exact reads_ip rfl Reads.pure

theorem reads_ns3Arp (x : NS3Arp) (hlead : lead = "" ∨ lead = ") ") :
    Reads (AtText mem) parseArpHeader (textOf (word lead :: x.pieces)) x.header
      fun rest => StopsAlnum rest ∧ byte 'q' ∉ rest := by
  refine reads_seek [word lead, word "ns3::ArpHeader"] ?_ ?_
  · rcases hlead with rfl | rfl <;> rfl
  have htext : textOf (word "(" :: word (if x.header.isRequest then "request" else "reply") ::
      x.addressPieces) =
      (bytes "(" ++ if x.header.isRequest then bytes "request" else bytes "reply") ++
        textOf x.addressPieces := by
    cases x.header.isRequest <;> simp [Piece.text]
  have hq : lacks x.addressPieces "q" = true := by
    rw [NS3Arp.addressPieces, NS3Arp.destPieces]
    cases x.header.isRequest <;> rfl
  rw [htext]
  refine (reads_arpKind x.header.isRequest).bind ?_ fun rest hrest => ?_
  · refine Reads.mono ?_ fun _ h => h.1
    refine reads_seek x.sourcePieces rfl ?_
    refine reads_ip ?_ ?_
    · rw [NS3Arp.destPieces]
      cases x.header.isRequest <;> rfl
    refine reads_seek x.destPieces ?_ ?_
    · rw [NS3Arp.destPieces]
      cases x.header.isRequest <;> rfl
    exact reads_ip rfl Reads.pure
  · have hnot : byte 'q' ∉ textOf x.addressPieces := fun hmem =>
      not_infix_of_lacks hq (List.singleton_infix_iff _ _ |>.mpr hmem)
    exact List.not_mem_append hnot hrest.2

end Headers

/-- Nothing, or a blank and something visible. -/
def Separated (t : Bytes) : Prop := t = [] ∨ ∃ u, t = byte ' ' :: u ∧ StopsAt isSpace u

/-- What is left of the rest of a line behind a header that was tried. -/
def Behind (t u : Bytes) : Prop := u = t ∨ u = byte ')' :: t ∨ t = byte ' ' :: u

/-- The rest of the line, up to what the header that was tried has left or taken. -/
def NearText (mem : Bytes) (h : LineHandler) (t : Bytes) : Prop :=
  ∃ u, AtText mem h u ∧ Behind t u

section Behind

variable {mem : Bytes} {h : LineHandler} {t u kw : Bytes} {α β : Type} {parse : LineScan β}
  {pieces : α → List Piece} {ok : Bytes → Prop}

/-- The first piece is a word that does not start with white space. -/
def startsVisible : List Piece → Bool
  | word s :: _ => isVisible s
  | _ => false

theorem stopsAt_of_startsVisible {ps : List Piece} (hps : startsVisible ps = true) (t : Bytes) :
    StopsAt isSpace (textOf ps ++ t) := by
  match ps with
  | word s :: ps =>
    rw [← textOf_raw t, ← textOf_append]
    exact stopsAt_isSpace_word hps

theorem textOf_partPieces_some (x : α) (t : Bytes) :
    textOf (partPieces pieces (some x)) ++ t =
      byte ' ' :: (textOf (pieces x) ++ byte ')' :: t) := by
  simp [partPieces, Piece.text, bytes, byte]

theorem separated_part (hvisible : ∀ x, startsVisible (pieces x) = true) (o : Option α)
    (ht : Separated t) : Separated (textOf (partPieces pieces o) ++ t) := by
  cases o with
  | none => exact ht
  | some x =>
    rw [textOf_partPieces_some]
    exact .inr ⟨_, rfl, stopsAt_of_startsVisible (hvisible x) _⟩

/-- A pattern without a blank is on one side of the blank between two parts. -/
theorem not_infix_append (hblank : byte ' ' ∉ kw) (ht : ¬ kw <:+: t) (hu : ¬ kw <:+: u)
    (hsep : Separated u) : ¬ kw <:+: t ++ u := by
  rcases hsep with rfl | ⟨v, rfl, -⟩
  · rwa [List.append_nil]
  · exact not_infix_of_split hblank ht fun hv => hu (hv.trans (List.infix_cons (List.infix_refl v)))

/-- Trimming takes the blank away, if the header before has not left its bracket. -/
theorem trimL_near (hsep : Separated t) (hv : NearText mem h t) :
    ∃ h' u, trimL h = (some (), h') ∧ AtText mem h' u ∧ Behind t u ∧ StopsAt isSpace u := by
  obtain ⟨u, hu, hbehind⟩ := hv
  have hstay : StopsAt isSpace u → ∃ h' u, trimL h = (some (), h') ∧ AtText mem h' u ∧
      Behind t u ∧ StopsAt isSpace u := by
    intro hstop
    obtain ⟨h', htrim, hv'⟩ := (reads_trimL (t := []) (by simp)) h u hu hstop
    exact ⟨h', u, htrim, hv', hbehind, hstop⟩
  rcases hbehind with rfl | rfl | rfl
  · rcases hsep with rfl | ⟨v, rfl, hstop⟩
    · exact hstay (stopsAt_nil _)
    · have hblank : ∀ c ∈ [byte ' '], isSpace c = true := fun c =>
        isSpace_of_mem_blanks (k := 1)
      obtain ⟨h', htrim, hv'⟩ := (reads_trimL hblank) h v hu hstop
      exact ⟨h', v, htrim, hv', .inr (.inr rfl), hstop⟩
  · exact hstay ((stopsAt_cons ..).mpr (by decide))
  · rcases hsep with heq | ⟨v, heq, hstop⟩
    · cases heq
    · obtain rfl := (List.cons.inj heq).2
      exact hstay hstop

/-- Trying one header: one that is present is decoded, and one that is missing is not found. -/
theorem reads_tryParseHeader {decode : α → β} (o : Option α)
    (hvisible : ∀ x, startsVisible (pieces x) = true) (hblank : byte ' ' ∉ kw)
    (hbracket : ¬ kw <:+: [byte ')'])
    (hread : ∀ x ∈ o, ∀ lead : String, lead = "" ∨ lead = ") " →
      Reads (AtText mem) parse (textOf (word lead :: pieces x)) (decode x) ok)
    (hrefuse : ∀ t, ¬ kw <:+: t → Refuses (AtText mem) parse t) :
    Reads (NearText mem) (tryParseHeader parse) (textOf (partPieces pieces o)) (o.map decode)
      fun rest => ok (byte ')' :: rest) ∧ Separated rest ∧ ¬ kw <:+: rest := by
  intro s rest hv hrest
  obtain ⟨hok, hsep, habsent⟩ := hrest
  obtain ⟨s₁, u, htrim, hu, hbehind, hstop⟩ := trimL_near (separated_part hvisible o hsep) hv
  cases o with
  | some x =>
    rw [textOf_partPieces_some] at hbehind
    obtain ⟨lead, hlead, rfl⟩ : ∃ lead : String, (lead = "" ∨ lead = ") ") ∧
        u = textOf (word lead :: pieces x) ++ byte ')' :: rest := by
      rcases hbehind with rfl | rfl | heq
      · exact absurd ((stopsAt_cons ..).mp hstop) (by decide)
      · exact ⟨") ", .inr rfl, rfl⟩
      · exact ⟨"", .inl rfl, (List.cons.inj heq).2.symm⟩
    obtain ⟨s₂, hp, hv₂⟩ := hread x rfl lead hlead s₁ _ hu hok
    refine ⟨s₂, ?_, _, hv₂, .inr (.inl rfl)⟩
    rw [tryParseHeader, Scan.bind_of_some htrim, Scan.optional, hp]
    rfl
  | none =>
    have hnot : ¬ kw <:+: byte ')' :: rest := not_infix_append hblank hbracket habsent hsep
    have hu' : ¬ kw <:+: u := by
      rcases hbehind with rfl | rfl | rfl
      · exact habsent
      · exact hnot
      · exact fun hoccurs => habsent (hoccurs.trans (List.infix_cons (List.infix_refl u)))
    obtain ⟨s₂, hp, hv₂⟩ := hrefuse u hu' s₁ hu
    refine ⟨s₂, ?_, _, hv₂, hbehind⟩
    rw [tryParseHeader, Scan.bind_of_some htrim, Scan.optional, hp]
    rfl

theorem not_infix_part {word : String} (o : Option α) (hblank : byte ' ' ∉ bytes word)
    (h : ∀ x, lacks (partPieces pieces (some x)) word = true) (ht : ¬ bytes word <:+: t)
    (hsep : Separated t) : ¬ bytes word <:+: textOf (partPieces pieces o) ++ t := by
  cases o with
  | none => exact ht
  | some x => exact not_infix_append hblank (not_infix_of_lacks (h x)) ht hsep

end Behind

section Shapes

/-- The shape of a part does not depend on its values, so that whether it has a word is
computed for one value of each shape. -/
def plainMac : MacAddress := List.Vector.replicate kMacSize 0

def NS3Ethernet.plain (blank : Bool) : NS3Ethernet := ⟨⟨0, plainMac, plainMac⟩, blank⟩

def NS3Arp.plain (isRequest : Bool) : NS3Arp := ⟨⟨⟨0⟩, ⟨0⟩, isRequest⟩, plainMac, plainMac⟩

def NS3Ip.plain (dontFragment : Bool) : NS3Ip := ⟨⟨0, ⟨0⟩, ⟨0⟩⟩, 0, 0, 0, 0, 0, dontFragment⟩

theorem lineShape_ethernet (x : NS3Ethernet) :
    lineShape (partPieces NS3Ethernet.pieces (some x)) =
      lineShape (partPieces NS3Ethernet.pieces (some (.plain x.blank))) := rfl

theorem lineShape_arp (x : NS3Arp) :
    lineShape (partPieces NS3Arp.pieces (some x)) =
      lineShape (partPieces NS3Arp.pieces (some (.plain x.header.isRequest))) := by
  obtain ⟨⟨_, _, _ | _⟩, _, _⟩ := x <;> rfl

theorem lineShape_ip (x : NS3Ip) :
    lineShape (partPieces NS3Ip.pieces (some x)) =
      lineShape (partPieces NS3Ip.pieces (some (.plain x.dontFragment))) := rfl

theorem lineShape_uid (line : NS3Line) :
    lineShape line.uidPieces = lineShape [word " Packet-Uid=", dec 0, word " Intersting=",
      word (if line.interesting then "true" else "false")] := rfl

theorem lineShape_payload (size : UInt64) :
    lineShape (partPieces payloadPieces (some size)) =
      lineShape (partPieces payloadPieces (some 0)) := rfl

end Shapes

/-- Whether a word is no text of a payload, -/
def payloadLacks (s : String) : Bool :=
  !(bytes s).isEmpty && !(bytes s).contains (byte ' ') &&
    lacks (partPieces payloadPieces (some 0)) s

/-- nor of an IPv4 header, -/
def ipLacks (s : String) : Bool :=
  payloadLacks s && [false, true].all fun b => lacks (partPieces NS3Ip.pieces (some (.plain b))) s

/-- nor of an ARP header, -/
def arpLacks (s : String) : Bool :=
  ipLacks s && [false, true].all fun b => lacks (partPieces NS3Arp.pieces (some (.plain b))) s

/-- nor of an Ethernet header. -/
def headersLack (s : String) : Bool :=
  arpLacks s &&
    [false, true].all fun b => lacks (partPieces NS3Ethernet.pieces (some (.plain b))) s

theorem lacks_of_all {f : Bool → List Piece} {s : String}
    (h : ([false, true].all fun b => lacks (f b) s) = true) (b : Bool) : lacks (f b) s = true :=
  List.all_eq_true.mp h b (by cases b <;> decide)

namespace NS3Line

variable {mem : Bytes} {s : String} (line : NS3Line)

theorem separated_payload : Separated (textOf (partPieces payloadPieces line.payload)) := by
  rw [← List.append_nil (textOf _)]
  exact separated_part (fun _ => rfl) _ (.inl rfl)

theorem separated_ipAndPayload : Separated (textOf line.ipAndPayload) := by
  rw [ipAndPayload, textOf_append]
  exact separated_part (fun _ => rfl) _ line.separated_payload

theorem separated_behindEthernet : Separated (textOf line.behindEthernet) := by
  rw [behindEthernet, textOf_append]
  exact separated_part (fun _ => rfl) _ line.separated_ipAndPayload

theorem separated_headers : Separated (textOf line.headers) := by
  rw [headers, textOf_append]
  exact separated_part (fun _ => rfl) _ line.separated_behindEthernet

theorem not_mem_of_payloadLacks (h : payloadLacks s = true) :
    bytes s ≠ [] ∧ byte ' ' ∉ bytes s ∧
      lacks (partPieces payloadPieces (some 0)) s = true := by
  simpa [payloadLacks, List.contains_eq_mem, and_assoc] using h

theorem absent_payload (h : payloadLacks s = true) :
    ¬ bytes s <:+: textOf (partPieces payloadPieces line.payload) := by
  obtain ⟨hne, hblank, hpayload⟩ := not_mem_of_payloadLacks h
  rw [← List.append_nil (textOf _)]
  refine not_infix_part _ hblank (fun size => ?_) (fun h => hne (List.infix_nil.mp h)) (.inl rfl)
  rwa [lacks, lineShape_payload]

theorem absent_ipAndPayload (h : ipLacks s = true) : ¬ bytes s <:+: textOf line.ipAndPayload := by
  rw [ipLacks, Bool.and_eq_true] at h
  rw [ipAndPayload, textOf_append]
  refine not_infix_part _ (not_mem_of_payloadLacks h.1).2.1 (fun x => ?_)
    (line.absent_payload h.1) line.separated_payload
  rw [lacks, lineShape_ip]
  exact lacks_of_all h.2 x.dontFragment

theorem blank_not_mem_of_ipLacks (h : ipLacks s = true) : byte ' ' ∉ bytes s := by
  rw [ipLacks, Bool.and_eq_true] at h
  exact (not_mem_of_payloadLacks h.1).2.1

theorem absent_behindEthernet (h : arpLacks s = true) :
    ¬ bytes s <:+: textOf line.behindEthernet := by
  rw [arpLacks, Bool.and_eq_true] at h
  rw [behindEthernet, textOf_append]
  refine not_infix_part _ (blank_not_mem_of_ipLacks h.1) (fun x => ?_)
    (line.absent_ipAndPayload h.1) line.separated_ipAndPayload
  rw [lacks, lineShape_arp]
  exact lacks_of_all h.2 x.header.isRequest

theorem blank_not_mem_of_headersLack (h : headersLack s = true) : byte ' ' ∉ bytes s := by
  rw [headersLack, arpLacks, Bool.and_eq_true, Bool.and_eq_true] at h
  exact blank_not_mem_of_ipLacks h.1.1

theorem absent_headers (h : headersLack s = true) : ¬ bytes s <:+: textOf line.headers := by
  have hblank := blank_not_mem_of_headersLack h
  rw [headersLack, Bool.and_eq_true] at h
  rw [headers, textOf_append]
  refine not_infix_part _ hblank (fun x => ?_) (line.absent_behindEthernet h.1)
    line.separated_behindEthernet
  rw [lacks, lineShape_ethernet]
  exact lacks_of_all h.2 x.blank

/-- Behind the path of a device. -/
def packet : List Piece := line.uidPieces ++ line.headers

theorem separated_packet : Separated (textOf line.packet) :=
  .inr ⟨_, rfl, (stopsAt_cons ..).mpr (by decide)⟩

theorem absent_packet (h : headersLack s = true)
    (huid : ([false, true].all fun b => lacks [word " Packet-Uid=", dec 0, word " Intersting=",
      word (if b then "true" else "false")] s) = true) :
    ¬ bytes s <:+: textOf line.packet := by
  have hline : lacks line.uidPieces s = true := by
    rw [lacks, lineShape_uid]
    exact lacks_of_all huid line.interesting
  rw [packet, textOf_append]
  exact not_infix_append (blank_not_mem_of_headersLack h) (not_infix_of_lacks hline)
    (line.absent_headers h) line.separated_headers

theorem returns_parsePayloadSize (h : line.InRange) :
    Returns (NearText mem) parsePayloadSize (textOf (partPieces payloadPieces line.payload))
      (line.payload.getD 0) := by
  rintro s ⟨u, hu, hbehind⟩
  cases hpayload : line.payload with
  | some size =>
    rw [hpayload, ← List.append_nil (textOf _), textOf_partPieces_some] at hbehind
    obtain ⟨lead, hlead, rfl⟩ : ∃ lead : String, (lead = " " ∨ lead = "" ∨ lead = ") ") ∧
        u = textOf ([word lead, word "Payload (size="] ++ [dec size.toNat, word ")"]) := by
      rcases hbehind with rfl | rfl | heq
      · exact ⟨" ", .inl rfl, by simp [payloadPieces, Piece.text, bytes, byte]⟩
      · exact ⟨") ", .inr (.inr rfl), by simp [payloadPieces, Piece.text, bytes, byte]⟩
      · refine ⟨"", .inr (.inl rfl), ?_⟩
        rw [← (List.cons.inj heq).2]
        simp [payloadPieces, Piece.text, bytes, byte]
    have hfound : finds "Payload (size=" [word lead, word "Payload (size="] = true := by
      rcases hlead with rfl | rfl | rfl <;> rfl
    rw [textOf_append] at hu
    refine (reads_found hfound).branch ?_ trivial s hu
    have hsize : Reads (AtText mem) (parseUintTrim 10) (numText 10 size.toNat) size StopsAlnum :=
      reads_parseUintTrim (.inl rfl) size (h.payload size hpayload)
    exact hsize.returns (u := textOf [word ")"]) (stopsAlnum_textOf rfl)
  | none =>
    have habsent : ¬ bytes "Payload (size=" <:+: u := by
      rw [hpayload] at hbehind
      rcases hbehind with rfl | rfl | heq
      · exact @not_infix_of_lacks [] _ rfl
      · exact @not_infix_of_lacks [word ")"] _ rfl
      · cases heq
    exact (refuses_of_absent habsent).branch Returns.pure s hu

/-- Every combination of headers is decoded. -/
theorem returns_headers {α : Type} {a : α} (h : line.InRange)
    {f : Option EthernetHeader → Option ArpHeader → Option Ipv4Header → UInt64 → LineScan α}
    (hf : f line.net.ethernetHeader line.net.arpHeader line.net.ipHeader line.net.payloadSize =
      pure a) :
    Returns (NearText mem)
      (do
        let ethHeader ← tryParseEthernetHeader
        let arpHeader ← tryParseArpHeader
        let ipHeader ← tryParseIpHeader
        let payloadSize ← parsePayloadSize
        f ethHeader arpHeader ipHeader payloadSize)
      (textOf line.headers) a := by
  have hclose : ∀ rest, StopsAlnum (byte ')' :: rest) := fun rest =>
    (stopsAlnum_cons ..).mpr (by decide)
  have hrefuse : ∀ {s : String} {α : Type} {p : Unit → LineScan α} t, ¬ bytes s <:+: t →
      Refuses (AtText mem) (consumeAndTrimTillString (bytes s) >>= p) t :=
    fun _ ht => (refuses_of_absent ht).bind
  have hq : byte 'q' ∉ byte ')' :: textOf line.ipAndPayload := by
    have habsent := line.absent_ipAndPayload (s := "q") (by decide +kernel)
    exact List.not_mem_cons_of_ne_of_not_mem (by decide) fun hmem =>
      habsent ((List.singleton_infix_iff ..).mpr hmem)
  have heth : Reads (NearText mem) tryParseEthernetHeader _ _ _ :=
    reads_tryParseHeader line.ethernet (fun _ => rfl) (by decide) (by decide)
      (fun x hx lead hlead => reads_ns3Ethernet x hlead (h.lengthType x hx))
      fun t ht => hrefuse t ht
  have harp : Reads (NearText mem) tryParseArpHeader _ _ _ :=
    reads_tryParseHeader line.arp (fun _ => rfl) (by decide) (by decide)
      (fun x _ lead hlead => reads_ns3Arp x hlead) fun t ht => hrefuse t ht
  have hip : Reads (NearText mem) tryParseIpHeader _ _ _ :=
    reads_tryParseHeader line.ip (fun _ => rfl) (by decide) (by decide)
      (fun x hx lead hlead => reads_ns3Ip x hlead (h.length x hx)) fun t ht => hrefuse t ht
  have hpayload : Returns (NearText mem)
      (parsePayloadSize >>= f line.net.ethernetHeader line.net.arpHeader line.net.ipHeader)
      (textOf (partPieces payloadPieces line.payload)) a := by
    refine (line.returns_parsePayloadSize h).bind fun s => ?_
    exact congrArg (fun p : LineScan α => (p s).1) hf
  rw [headers, textOf_append]
  refine heth.bind_returns ?_ ⟨hclose _, line.separated_behindEthernet,
    line.absent_behindEthernet (by decide +kernel)⟩
  rw [behindEthernet, textOf_append]
  refine harp.bind_returns ?_ ⟨⟨hclose _, hq⟩, line.separated_ipAndPayload,
    line.absent_ipAndPayload (by decide +kernel)⟩
  rw [ipAndPayload, textOf_append]
  exact hip.bind_returns hpayload ⟨hclose _, line.separated_payload,
    line.absent_payload (by decide +kernel)⟩

theorem networkEvent_type (net : NetworkEvent) :
    networkEvent line.action.type net = pure (line.action.kind net) := by
  cases line.action <;> rfl

theorem reads_parseType (action : NS3Action) :
    Reads (AtText mem) parseType (bytes action.text) action.type fun _ => True := by
  have htake : ∀ (c : UInt8) (t : EventType) (r : LineScan EventType),
      Reads (AtText mem) (.branch (consumeAndTrimChar c) (pure t) r) [c] t fun _ => True :=
    fun c t r => (reads_consumeAndTrimChar c).branch_seq Reads.pure
  have hskip : ∀ (c d : UInt8) (t : EventType) (q r : LineScan EventType), d ≠ c →
      Reads (AtText mem) r [d] t (fun _ => True) →
      Reads (AtText mem) (.branch (consumeAndTrimChar c) q r) [d] t fun _ => True :=
    fun c d t q r hcd hr => Reads.branch_right (fun _ _ => refuses_consumeAndTrimChar hcd) hr
  cases action with
  | enqueue => exact htake _ _ _
  | dequeue => exact hskip _ _ _ _ _ (by decide) (htake _ _ _)
  | drop => exact hskip _ _ _ _ _ (by decide) (hskip _ _ _ _ _ (by decide) (htake _ _ _))

/-- The name of a simple device is not in the rest of the line of the other device. -/
theorem reads_parseDeviceType (deviceType : NetworkDeviceType) :
    Reads (AtText mem) parseDeviceType (bytes (deviceText deviceType)) deviceType
      fun rest => ¬ bytes "ns3::SimpleNetDevice" <:+: bytes "/$ns3::CosimNetDevice" ++ rest := by
  rw [← List.append_nil (bytes _)]
  cases deviceType with
  | kSimpleNetDevice => exact (reads_word rfl).branch_seq Reads.pure
  | kCosimNetDevice =>
    refine Reads.branch_right (fun rest hrest => ?_) ((reads_word rfl).branch_seq Reads.pure)
    rw [List.append_nil]
    exact refuses_of_absent hrest

/-- A word that is neither in the path nor behind it is not found. -/
theorem refuses_path {s t : String} {rest : Bytes} (hblank : byte ' ' ∉ bytes s)
    (hsep : Separated rest) (habsent : ¬ bytes s <:+: rest) (ht : lacks [word t] s = true) :
    Refuses (AtText mem) (consumeAndTrimTillString (bytes s)) (bytes t ++ rest) := by
  have hnot := not_infix_of_lacks ht
  rw [textOf_cons, textOf_nil, List.append_nil] at hnot
  exact refuses_of_absent (not_infix_append hblank hnot habsent hsep)

theorem returns_parseBoundaryType {α : Type} {a : α} {f : EventBoundaryType → LineScan α}
    {path : NS3Path} {rest : Bytes} (hsep : Separated rest)
    (hrx : ¬ bytes "RxPacketFromAdapter" <:+: rest) (htx : ¬ bytes "TxPacketToAdapter" <:+: rest)
    (hf : Returns (AtText mem) (f path.boundaryType) (bytes path.left ++ rest) a) :
    Returns (AtText mem) (parseBoundaryType >>= f) (bytes path.text ++ rest) a := by
  have hnoRx : ∀ t : String, lacks [word t] "RxPacketFromAdapter" = true →
      Refuses (AtText mem) (consumeAndTrimTillString (bytes "RxPacketFromAdapter"))
        (bytes t ++ rest) := fun _ => refuses_path (by decide) hsep hrx
  have hnoTx : ∀ t : String, lacks [word t] "TxPacketToAdapter" = true →
      Refuses (AtText mem) (consumeAndTrimTillString (bytes "TxPacketToAdapter"))
        (bytes t ++ rest) := fun _ => refuses_path (by decide) hsep htx
  have hwithin : ∀ t : String, lacks [word t] "RxPacketFromAdapter" = true →
      lacks [word t] "TxPacketToAdapter" = true →
      Returns (AtText mem) (f .kWithinSimulator) (bytes t ++ rest) a →
      Returns (AtText mem) (parseBoundaryType >>= f) (bytes t ++ rest) a := by
    intro t hrx htx hf
    have hread : Reads (AtText mem) parseBoundaryType [] .kWithinSimulator
        fun u => u = bytes t ++ rest := by
      refine Reads.branch_right ?_ (Reads.branch_right ?_ Reads.pure)
      · rintro _ rfl
        exact hnoRx t hrx
      · rintro _ rfl
        exact hnoTx t htx
    exact hread.bind_returns hf rfl
  cases path with
  | rxPacketFromAdapter =>
    have hread : Reads (AtText mem) parseBoundaryType (bytes "/RxPacketFromAdapter" ++ [])
        .kFromAdapter fun _ => True := (reads_word rfl).branch_seq Reads.pure
    rw [List.append_nil] at hread
    exact hread.bind_returns hf trivial
  | txPacketToAdapter =>
    have hread : Reads (AtText mem) parseBoundaryType (bytes "/TxPacketToAdapter" ++ [])
        .kToAdapter fun u => u = rest := by
      refine Reads.branch_right ?_ ((reads_word rfl).branch_seq Reads.pure)
      rintro _ rfl
      rw [List.append_nil]
      exact hnoRx _ rfl
    rw [List.append_nil] at hread
    exact hread.bind_returns hf rfl
  | rxPacketFromNetwork => exact hwithin _ rfl rfl hf
  | txPacketToNetwork => exact hwithin _ rfl rfl hf
  | txPacketToAttachedDevice => exact hwithin _ rfl rfl hf
  | txQueueEnqueue => exact hwithin _ rfl rfl hf
  | txQueueDequeue => exact hwithin _ rfl rfl hf

theorem returns_near {α : Type} {a : α} {p : LineScan α} {t : Bytes}
    (h : Returns (NearText mem) p t a) : Returns (AtText mem) p t a :=
  fun s hv => h s ⟨t, hv, .inl rfl⟩

/-- The path, the number and the flag of the packet, and its headers. -/
theorem returns_parseNetDevice (h : line.InRange) :
    Returns (AtText mem) (parseNetDevice line.action.type line.node line.device line.deviceType)
      (bytes line.path.text ++ textOf line.packet) (line.action.kind line.net) := by
  have hheaders := @returns_headers mem line _ _ h
    (fun ethHeader arpHeader ipHeader payloadSize => networkEvent line.action.type
      ⟨line.node, line.device, line.deviceType, line.packetUid, line.interesting, payloadSize,
        line.path.boundaryType, ethHeader, arpHeader, ipHeader⟩)
    (line.networkEvent_type line.net)
  have hvisible : isVisible line.path.text = true := by cases line.path <;> rfl
  have hfound : finds "Packet-Uid=" [word line.path.left, word " Packet-Uid="] = true := by
    cases line.path <;> rfl
  have hflag : bytes (if line.interesting then "true" else "false") =
      if line.interesting then bytes "true" else bytes "false" := by
    cases line.interesting <;> rfl
  refine @returns_trimL mem line.packet _ _ line.path.text _ hvisible ?_
  refine returns_parseBoundaryType line.separated_packet
    (line.absent_packet (by decide +kernel) (by decide +kernel))
    (line.absent_packet (by decide +kernel) (by decide +kernel)) ?_
  refine returns_seek [word line.path.left, word " Packet-Uid="] hfound ?_
  refine returns_dec h.packetUid rfl ?_
  refine returns_till rfl ?_
  change Returns _ _ (bytes (if line.interesting then "true" else "false") ++ textOf line.headers) _
  rw [hflag]
  exact (reads_parseBoolFromStringRepr line.interesting).bind_returns (returns_near hheaders)
    trivial

end NS3Line

/-- A line of the log is read back as the event of its action, with its time stamp, the
fields of the device and of the packet, and the headers that it has. -/
theorem parseEvent_ns3Line (parser : LogParser) (line : NS3Line) (mem : Bytes)
    (h : line.InRange) :
    (NS3Parser.parseEvent parser (.ofLine line.text (kLineEnd :: mem))).1 =
      some (parser.event line.timestamp (line.action.kind line.net)) := by
  have hv := atText_ofLine line.text mem
  have hne : line.text ≠ [] := by
    rw [NS3Line.text, NS3Line.pieces]
    cases line.action <;> exact List.cons_ne_nil _ _
  have hdevice : ¬ bytes "ns3::SimpleNetDevice" <:+:
      bytes "/$ns3::CosimNetDevice" ++ (bytes line.path.text ++ textOf line.packet) := by
    have hpath : lacks [word "/$ns3::CosimNetDevice", word line.path.text]
        "ns3::SimpleNetDevice" = true := by cases line.path <;> rfl
    have hnot := not_infix_append (by decide) (not_infix_of_lacks hpath)
      (line.absent_packet (s := "ns3::SimpleNetDevice") (by decide +kernel) (by decide +kernel))
      line.separated_packet
    simpa [Piece.text] using hnot
  rw [NS3Parser.parseEvent, hv.isEmpty_eq hne, if_neg (by decide)]
  refine (show Returns (AtText mem) _ _ _ from ?_) _ hv
  refine (NS3Line.reads_parseType line.action).bind_returns (u := textOf line.pieces.tail)
    ?_ trivial
  refine returns_trimL_dec ?_
  refine returns_parseTimestamp h.timestamp rfl ?_
  refine returns_till rfl ?_
  refine returns_int h.node rfl ?_
  refine returns_till rfl ?_
  refine returns_int h.device ?_ ?_
  · cases line.deviceType <;> rfl
  refine (NS3Line.reads_parseDeviceType line.deviceType).bind_returns ?_ hdevice
  exact (line.returns_parseNetDevice h).bind fun _ => rfl

/-- A reply that leaves a simple device. -/
def replyLine : NS3Line where
  action := .dequeue
  timestamp := 2992989915000
  node := 0
  device := 1
  deviceType := .kSimpleNetDevice
  path := .txQueueDequeue
  packetUid := 21
  interesting := false
  ethernet := some
    ⟨⟨0xb0a9, ⟨[0, 2, 0x78, 0xd2, 0x22, 0xc4], rfl⟩, ⟨[0, 1, 8, 0, 6, 4], rfl⟩⟩, false⟩
  arp := some ⟨⟨⟨0xc0a84002⟩, ⟨0xc0a84003⟩, false⟩, ⟨[0x78, 0xd2, 0x22, 0xc4, 0xb0, 0xa9], rfl⟩,
    ⟨[0xa8, 0x32, 6, 0x8c, 0x52, 0xb1], rfl⟩⟩
  ip := none
  payload := some 42

theorem parseEvent_replyLine :
    (NS3Parser.parseEvent ⟨bytes "ns3", 3⟩ (.ofLine replyLine.text (kLineEnd :: []))).1 =
      some ⟨2992989915000, 3, bytes "ns3", .networkDequeue
        ⟨0, 1, .kSimpleNetDevice, 21, false, 42, .kWithinSimulator,
          some ⟨0xb0a9, ⟨[0, 2, 0x78, 0xd2, 0x22, 0xc4], rfl⟩, ⟨[0, 1, 8, 0, 6, 4], rfl⟩⟩,
          some ⟨⟨0xc0a84002⟩, ⟨0xc0a84003⟩, false⟩, none⟩⟩ :=
  parseEvent_ns3Line _ replyLine _
    { timestamp := by decide
      node := by decide
      device := by decide
      packetUid := by decide
      lengthType := by simp [replyLine, ULONG_MAX]
      length := by simp [replyLine]
      payload := by simp [replyLine, ULONG_MAX] }

example : textOf (partPieces NS3Arp.pieces replyLine.arp) =
    bytes " ns3::ArpHeader(reply source mac: 00-06-78:d2:22:c4:b0:a9 source ipv4: 192.168.64.2" ++
      bytes " dest mac: 00-06-a8:32:06:8c:52:b1 dest ipv4: 192.168.64.3)" := by decide +kernel

end Columbo
