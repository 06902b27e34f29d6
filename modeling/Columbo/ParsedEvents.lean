import Columbo.HostEventRoundTrip
import Columbo.TraceProgramRuns

/-!
# The events that parsers accept

`ParseUintTrim` rejects what `strtoul` may have cut off, so that every number of an event is below
`ULONG_MAX`. A call always has a symbol and a component. The events of a log carry the name and
the identifier of its parser.
-/
namespace Columbo

/-- A number that `ParseUintTrim` does not take for an overflow. -/
def Small (n : UInt64) : Prop := n.toNat < ULONG_MAX

instance (n : UInt64) : Decidable (Small n) := inferInstanceAs (Decidable (n.toNat < ULONG_MAX))

def NetworkEvent.numbers (net : NetworkEvent) : List UInt64 :=
  net.packetUid :: net.payloadSize :: ((net.ethernetHeader.map EthernetHeader.lengthType).toList ++
    (net.ipHeader.map Ipv4Header.length).toList)

namespace EventKind

/-- The numbers of 64 bits. -/
def numbers : EventKind → List UInt64
  | hostInstr n | hostCall n _ _ | hostMmioCR n | hostMmioCW n | hostDmaC n | hostMsiX n
  | setIX n | nicTx n | nicRx _ n => [n]
  | hostMmioR id addr size _ offset | hostMmioW id addr size _ offset _ => [id, addr, size, offset]
  | hostConf dev func reg bytes data _ => [dev, func, reg, bytes, data]
  | hostPciRW offset size _ => [offset, size]
  | hostDmaR id addr size | hostDmaW id addr size => [id, addr, size]
  | nicDmaI id addr len | nicDmaEx id addr len | nicDmaEn id addr len
  | nicDmaCR id addr len | nicDmaCW id addr len => [id, addr, len]
  | nicMmioR off len val | nicMmioW off len val _ => [off, len, val]
  | networkEnqueue net | networkDequeue net | networkDrop net => net.numbers
  | simSendSync | simProcInEvent | hostMmioImRespPoW | hostClearInt | hostPostInt | nicMsix .. => []

/-- A call has names, and they are those of its address. -/
def Named (names : UInt64 → Bytes → Bytes → Prop) : EventKind → Prop
  | hostCall pc func comp => ∃ f c, func = some f ∧ comp = some c ∧ names pc f c
  | _ => True

/-- What a parser can accept that knows such names. -/
structure Accepted (names : UInt64 → Bytes → Bytes → Prop) (network : Bool → Prop)
    (k : EventKind) : Prop where
  numbers : ∀ n ∈ k.numbers, Small n
  named : k.Named names
  network : network k.isNetwork

end EventKind

section Fields

variable {names : UInt64 → Bytes → Bytes → Prop}

theorem yields_parseUintTrim (base : ℕ) : (parseUintTrim base).Yields Small := by
  intro h n hn
  simp only [parseUintTrim] at hn
  generalize (if base = 10 then isNum else isAlnum) = predicate at hn
  split_ifs at hn with hempty hlength hmax
  obtain rfl := Option.some.inj hn
  have hle := strtoul_le (s := h.cursor) base
  rw [Small, toNat_toUInt64_of_le hle]
  exact lt_of_le_of_ne hle hmax

theorem yields_uintField (name : String) (base : ℕ) : (uintField name base).Yields Small :=
  .after fun _ => yields_parseUintTrim base

theorem yields_parseAddress : LogParser.parseAddress.Yields Small := yields_parseUintTrim 16

theorem yields_parseTimestamp : LogParser.parseTimestamp.Yields Small :=
  .after fun _ => yields_parseUintTrim 10

theorem yields_extractInto (predicate : UInt8 → Bool) :
    (extractAndSubstrUntilInto predicate).Yields fun t =>
      t ≠ [] ∧ ∀ c ∈ t, predicate c = true := by
  have hwhile : (extractAndSubstrUntil predicate).Yields fun t => ∀ c ∈ t, predicate c = true := by
    intro h t ht c hc
    obtain rfl := Option.some.inj ht
    exact List.mem_takeWhile_imp hc
  refine hwhile.bind fun t ht => ?_
  by_cases hempty : t.isEmpty = true
  · rw [if_pos hempty]
    exact .fail
  · rw [if_neg hempty]
    exact .pure ⟨by simpa using hempty, ht⟩

theorem yields_textField (name : String) (predicate : UInt8 → Bool) :
    (textField name predicate).Yields fun t => t ≠ [] ∧ ∀ c ∈ t, predicate c = true :=
  .after fun _ => yields_extractInto predicate

/-- A triple of numbers. -/
theorem yields_triple {p q r : LineScan UInt64} (hp : p.Yields Small) (hq : q.Yields Small)
    (hr : r.Yields Small) :
    (p >>= fun a => q >>= fun b => r >>= fun c => pure (a, b, c)).Yields
      fun x => Small x.1 ∧ Small x.2.1 ∧ Small x.2.2 :=
  hp.bind fun _ ha => hq.bind fun _ hb => hr.bind fun _ hc => .pure ⟨ha, hb, hc⟩

theorem yields_parseEthernetHeader : parseEthernetHeader.Yields fun x => Small x.lengthType :=
  .after fun _ => .after fun _ => (yields_parseUintTrim 16).bind fun _ hlength =>
    .after fun _ => .after fun _ => .after fun _ => .after fun _ => .pure hlength

theorem yields_parseIpHeader : parseIpHeader.Yields fun x => Small x.length :=
  .after fun _ => .after fun _ => (yields_parseUintTrim 10).bind fun _ hlength =>
    .after fun _ => .after fun _ => .after fun _ => .after fun _ => .after fun _ =>
      .after fun _ => .pure hlength

/-- The headers that are present. -/
theorem yields_tryParseHeader {α : Type} {parse : LineScan α} {post : α → Prop}
    (h : parse.Yields post) : (tryParseHeader parse).Yields fun o => ∀ x ∈ o, post x :=
  .after fun _ => h.optional

theorem NetworkEvent.forall_numbers {net : NetworkEvent} (huid : Small net.packetUid)
    (hsize : Small net.payloadSize) (heth : ∀ x ∈ net.ethernetHeader, Small x.lengthType)
    (hip : ∀ x ∈ net.ipHeader, Small x.length) : ∀ n ∈ net.numbers, Small n := by
  refine List.forall_mem_cons.mpr ⟨huid, List.forall_mem_cons.mpr ⟨hsize, ?_⟩⟩
  refine List.forall_mem_append.mpr ⟨fun n hn => ?_, fun n hn => ?_⟩
  · obtain ⟨x, hx, rfl⟩ := Option.map_eq_some_iff.mp (Option.mem_toList.mp hn)
    exact heth x hx
  · obtain ⟨x, hx, rfl⟩ := Option.map_eq_some_iff.mp (Option.mem_toList.mp hn)
    exact hip x hx

end Fields

/-- What a log parser accepts that knows no calls. -/
abbrev PlainKind (network : Bool) (k : EventKind) : Prop :=
  k.Accepted (fun _ _ _ => False) (· = network)

namespace Gem5Parser

/-- The symbol and the component of the first table that has one. -/
def names (parser : Gem5Parser) (pc : UInt64) (f c : Bytes) : Prop :=
  TraceEnvironment.symtableFilter parser.symbolTables pc = some (f, c)

variable (parser : Gem5Parser)

abbrev Kind (k : EventKind) : Prop := k.Accepted parser.names (· = false)

theorem yields_parseGlobalEvent : parseGlobalEvent.Yields parser.Kind :=
  .after fun _ => .after fun _ => .branch (.pure ⟨by simp [EventKind.numbers], trivial, rfl⟩)
    (.branch (.pure ⟨by simp [EventKind.numbers], trivial, rfl⟩) .fail)

theorem yields_parseInstruction {addr : UInt64} (haddr : Small addr) :
    (parser.parseInstruction addr).Yields parser.Kind := by
  unfold parseInstruction
  refine .branch (.pure ⟨by simpa [EventKind.numbers] using haddr, trivial, rfl⟩) ?_
  cases hnames : TraceEnvironment.symtableFilter parser.symbolTables addr with
  | none => exact .fail
  | some p =>
    obtain ⟨f, c⟩ := p
    exact .pure ⟨by simpa [EventKind.numbers] using haddr, ⟨f, c, rfl, rfl, hnames⟩, rfl⟩

theorem yields_parseSystemSwitchCpus : parser.parseSystemSwitchCpus.Yields parser.Kind :=
  .after fun _ => (yields_parseUintTrim 16).bind fun _ haddr => .after fun _ =>
    .branch (.after fun _ => .branch .fail (.branch .fail (.branch .fail
      (parser.yields_parseInstruction haddr)))) (parser.yields_parseInstruction haddr)

theorem yields_parsePciRW (isRead : Bool) : (parsePciRW isRead).Yields parser.Kind :=
  (yields_parseUintTrim 16).bind fun _ hoffset => .after fun _ =>
    (yields_parseUintTrim 16).bind fun _ hsize =>
      .pure ⟨by simp [EventKind.numbers, hoffset, hsize], trivial, rfl⟩

theorem yields_parseSystemPcPciHost : parseSystemPcPciHost.Yields parser.Kind :=
  .branch (parser.yields_parsePciRW true) (.branch (parser.yields_parsePciRW false) .fail)

theorem yields_parseSystemPcPciHostInterface :
    parseSystemPcPciHostInterface.Yields parser.Kind :=
  .after fun _ => .after fun _ => .branch (.pure ⟨by simp [EventKind.numbers], trivial, rfl⟩)
    (.branch (.pure ⟨by simp [EventKind.numbers], trivial, rfl⟩) .fail)

theorem yields_parseConfData : parseConfData.Yields Small :=
  .orElse (.after fun _ => yields_parseUintTrim 16) (.after fun _ => .pure (by decide))

theorem yields_parseConf (isReadConf : Bool) : (parseConf isReadConf).Yields parser.Kind :=
  .after fun _ => .after fun _ => (yields_parseUintTrim 10).bind fun _ hdev =>
    .after fun _ => (yields_parseUintTrim 10).bind fun _ hfunc =>
      .after fun _ => (yields_parseUintTrim 16).bind fun _ hreg =>
        .after fun _ => (yields_parseUintTrim 10).bind fun _ hnumBytes =>
          .after fun _ => yields_parseConfData.bind fun _ hdata =>
            .pure ⟨by simp [EventKind.numbers, hdev, hfunc, hreg, hnumBytes, hdata], trivial, rfl⟩

theorem yields_parseCompletion (word : String) {mk : UInt64 → EventKind}
    (hmk : ∀ id, Small id → parser.Kind (mk id)) :
    (parseCompletion word mk).Yields parser.Kind :=
  .after fun _ => .after fun _ => (yields_parseUintTrim 10).bind fun _ hid => .pure (hmk _ hid)

theorem yields_parseDma (word : String) {mk : UInt64 → UInt64 → UInt64 → EventKind}
    (hmk : ∀ id addr size, Small id → Small addr → Small size → parser.Kind (mk id addr size)) :
    (parseDma word mk).Yields parser.Kind :=
  .after fun _ => (yields_parseUintTrim 10).bind fun _ hid =>
    .after fun _ => (yields_parseUintTrim 16).bind fun _ haddr =>
      .after fun _ => (yields_parseUintTrim 10).bind fun _ hsize =>
        .pure (hmk _ _ _ hid haddr hsize)

theorem yields_parseMsiX : parseMsiX.Yields parser.Kind :=
  .after fun _ => (yields_parseUintTrim 10).bind fun _ hvec =>
    .pure ⟨by simp [EventKind.numbers, hvec], trivial, rfl⟩

theorem yields_parseReceived : parseReceived.Yields parser.Kind := by
  refine .orElse (parser.yields_parseCompletion _ fun id hid => ?_)
    (.orElse (parser.yields_parseCompletion _ fun _ hid => ?_)
      (.branch (.orElse (parser.yields_parseDma _ fun id addr size hid haddr hsize => ?_)
        (parser.yields_parseDma _ fun id addr size hid haddr hsize => ?_))
        parser.yields_parseMsiX))
  · exact ⟨by simp [EventKind.numbers, hid], trivial, rfl⟩
  · exact ⟨by simp [EventKind.numbers, hid], trivial, rfl⟩
  · exact ⟨by simp [EventKind.numbers, hid, haddr, hsize], trivial, rfl⟩
  · exact ⟨by simp [EventKind.numbers, hid, haddr, hsize], trivial, rfl⟩

theorem yields_parseMmio (isRead : Bool) : (parseMmio isRead).Yields parser.Kind :=
  (yields_parseUintTrim 16).bind fun _ haddr =>
    .after fun _ => (yields_parseUintTrim 10).bind fun _ hsize =>
      .after fun _ => (yields_parseUintTrim 10).bind fun _ hid => .after fun _ =>
        .after fun _ => .after fun _ => (yields_parseUintTrim 16).bind fun _ hoffset =>
          .ite (.pure ⟨by simp [EventKind.numbers, hid, haddr, hsize, hoffset], trivial, rfl⟩)
            (.after fun _ => .after fun _ =>
              .pure ⟨by simp [EventKind.numbers, hid, haddr, hsize, hoffset], trivial, rfl⟩)

theorem yields_parseSending : parseSending.Yields parser.Kind :=
  .branch (parser.yields_parseMmio true) (.branch (parser.yields_parseMmio false)
    (.branch (.pure ⟨by simp [EventKind.numbers], trivial, rfl⟩) .fail))

theorem yields_parseCompletedDma : parseCompletedDma.Yields parser.Kind :=
  .after fun _ => (yields_parseUintTrim 10).bind fun _ hid =>
    .pure ⟨by simp [EventKind.numbers, hid], trivial, rfl⟩

theorem yields_parseSystemPcSimbricks : parseSystemPcSimbricks.Yields parser.Kind :=
  .after fun _ => .after fun _ => .branch (parser.yields_parseConf true)
    (.branch (parser.yields_parseConf false) (.branch (.after fun _ =>
      .branch parser.yields_parseReceived (.branch parser.yields_parseSending
        parser.yields_parseCompletedDma)) .fail))

theorem yields_parseKind : parser.parseKind.Yields parser.Kind :=
  .branch parser.yields_parseGlobalEvent (.branch parser.yields_parseSystemSwitchCpus
    (.branch (.branch (.branch parser.yields_parseSystemPcPciHostInterface
      (.after fun _ => parser.yields_parseSystemPcPciHost))
      (.branch parser.yields_parseSystemPcSimbricks .fail)) .fail))

end Gem5Parser

namespace NicBmParser

theorem yields_parseOffLenValComma : parseOffLenValComma.Yields fun x =>
    Small x.1 ∧ Small x.2.1 ∧ Small x.2.2 :=
  .after fun _ => yields_parseAddress.bind fun _ hoff =>
    .after fun _ => (yields_parseUintTrim 10).bind fun _ hlen =>
      .after fun _ => yields_parseAddress.bind fun _ hval => .pure ⟨hoff, hlen, hval⟩

theorem yields_parseOpAddrLen : parseOpAddrLen.Yields fun x =>
    Small x.1 ∧ Small x.2.1 ∧ Small x.2.2 :=
  .after fun _ => yields_parseAddress.bind fun _ hop =>
    .after fun _ => yields_parseAddress.bind fun _ haddr =>
      .after fun _ => (yields_parseUintTrim 10).bind fun _ hlen => .pure ⟨hop, haddr, hlen⟩

theorem yields_parseDma (withPending : Bool) {mk : UInt64 → UInt64 → UInt64 → EventKind}
    (hmk : ∀ id addr len, Small id → Small addr → Small len → PlainKind false (mk id addr len)) :
    (parseDma mk withPending).Yields (PlainKind false) := by
  have hpending : (parseOpAddrLenPending withPending).Yields fun x =>
      Small x.1 ∧ Small x.2.1 ∧ Small x.2.2 :=
    yields_parseOpAddrLen.bind fun _ hx =>
      .ite (.after fun _ => .after fun _ => .pure hx) (.pure hx)
  exact hpending.bind fun _ hx => .pure (hmk _ _ _ hx.1 hx.2.1 hx.2.2)

theorem yields_parseKind : parseKind.Yields (PlainKind false) := by
  have hdma : ∀ {k : EventKind} {op addr len : UInt64}, k.numbers = [op, addr, len] →
      k.Named (fun _ _ _ => False) → k.isNetwork = false → Small op → Small addr → Small len →
      PlainKind false k := by
    intro k op addr len hnumbers hnamed hnetwork hop haddr hlen
    exact ⟨by simp [hnumbers, hop, haddr, hlen], hnamed, hnetwork⟩
  have hread : parseRead.Yields (PlainKind false) :=
    yields_parseOffLenValComma.bind fun _ hx =>
      .pure (hdma rfl trivial rfl hx.1 hx.2.1 hx.2.2)
  have hwrite : parseWrite.Yields (PlainKind false) :=
    yields_parseOffLenValComma.bind fun _ hx => .after fun _ => .after fun _ =>
      .pure (hdma rfl trivial rfl hx.1 hx.2.1 hx.2.2)
  have hcompleted : parseCompleted.Yields (PlainKind false) :=
    .branch (yields_parseDma _ fun _ _ _ => hdma rfl trivial rfl)
      (.branch (yields_parseDma _ fun _ _ _ => hdma rfl trivial rfl) .fail)
  have hmsi : parseMsi.Yields (PlainKind false) :=
    .branch (.after fun _ => .pure ⟨by simp [EventKind.numbers], trivial, rfl⟩)
      (.branch (.after fun _ => .pure ⟨by simp [EventKind.numbers], trivial, rfl⟩) .fail)
  have htx : parseTx.Yields (PlainKind false) :=
    (yields_parseUintTrim 10).bind fun _ hlen =>
      .pure ⟨by simp [EventKind.numbers, hlen], trivial, rfl⟩
  have hrx : parseRx.Yields (PlainKind false) :=
    .after fun _ => .after fun _ => (yields_parseUintTrim 10).bind fun _ hlen =>
      .pure ⟨by simp [EventKind.numbers, hlen], trivial, rfl⟩
  have hsetIX : parseSetIX.Yields (PlainKind false) :=
    yields_parseAddress.bind fun _ haddr =>
      .pure ⟨by simp [EventKind.numbers, haddr], trivial, rfl⟩
  exact .branch (.pure ⟨by simp [EventKind.numbers], trivial, rfl⟩) <|
    .branch hread <| .branch hwrite <|
    .branch (yields_parseDma _ fun _ _ _ => hdma rfl trivial rfl) <|
    .branch (yields_parseDma _ fun _ _ _ => hdma rfl trivial rfl) <|
    .branch (yields_parseDma _ fun _ _ _ => hdma rfl trivial rfl) <|
    .branch hcompleted <| .branch hmsi <| .branch (.branch htx (.branch hrx .fail)) <|
    .branch hsetIX <| .branch .fail .fail

end NicBmParser

namespace NS3Parser

theorem yields_networkEvent (type : EventType) {net : NetworkEvent}
    (hnet : ∀ n ∈ net.numbers, Small n) :
    (networkEvent type net).Yields (PlainKind true) := by
  unfold networkEvent
  split
  · exact .pure ⟨hnet, trivial, rfl⟩
  · exact .pure ⟨hnet, trivial, rfl⟩
  · exact .pure ⟨hnet, trivial, rfl⟩
  · exact .fail

theorem yields_parseNetDevice (type : EventType) (node device : Int32)
    (deviceType : NetworkDeviceType) :
    (parseNetDevice type node device deviceType).Yields (PlainKind true) := by
  have hpayload : parsePayloadSize.Yields Small :=
    .branch (yields_parseUintTrim 10) (.pure (by decide))
  exact .after fun _ => .after fun _ => .after fun _ =>
    (yields_parseUintTrim 10).bind fun _ huid => .after fun _ => .after fun _ =>
      (yields_tryParseHeader yields_parseEthernetHeader).bind fun _ heth => .after fun _ =>
        (yields_tryParseHeader yields_parseIpHeader).bind fun _ hip =>
          hpayload.bind fun _ hsize =>
            yields_networkEvent type (NetworkEvent.forall_numbers huid hsize heth hip)

end NS3Parser

section EventStream

/-- The names that `ParseEvent` extracts from a line. -/
def streamNames (_ : UInt64) (f c : Bytes) : Prop :=
  (f ≠ [] ∧ ∀ x ∈ f, isAlnumDotBar x = true) ∧ c ≠ [] ∧ ∀ x ∈ c, isAlnumDotBar x = true

abbrev StreamKind (k : EventKind) : Prop := k.Accepted streamNames fun _ => True

theorem yields_parseHostAddrSizeOp : parseHostAddrSizeOp.Yields fun x =>
    Small x.1 ∧ Small x.2.1 ∧ Small x.2.2 :=
  yields_triple (yields_uintField _ _) (yields_uintField _ _) (yields_uintField _ _)

theorem yields_parseNicMmio : parseNicMmio.Yields fun x =>
    Small x.1 ∧ Small x.2.1 ∧ Small x.2.2 :=
  yields_triple (yields_uintField _ _) (yields_uintField _ _) (yields_uintField _ _)

theorem yields_parseHostCall : parseHostCall.Yields StreamKind := by
  refine (yields_uintField _ _).bind fun pc hpc => ?_
  refine (yields_textField _ _).bind fun f hf => (yields_textField _ _).bind fun c hc => ?_
  exact .pure ⟨by simp [EventKind.numbers, hpc], ⟨f, c, rfl, rfl, hf, hc⟩, trivial⟩

theorem yields_parseHostDma {mk : UInt64 → UInt64 → UInt64 → EventKind}
    (hnumbers : ∀ a b c, (mk a b c).numbers = [a, b, c])
    (hnamed : ∀ a b c, (mk a b c).Named streamNames) : (parseHostDma mk).Yields StreamKind :=
  yields_parseHostAddrSizeOp.bind fun _ hx =>
    .pure ⟨by simp [hnumbers, hx], hnamed _ _ _, trivial⟩

theorem yields_parseNicDma {mk : UInt64 → UInt64 → UInt64 → EventKind}
    (hnumbers : ∀ a b c, (mk a b c).numbers = [a, b, c])
    (hnamed : ∀ a b c, (mk a b c).Named streamNames) : (parseNicDma mk).Yields StreamKind :=
  (yields_uintField _ _).bind fun _ hid => (yields_uintField _ _).bind fun _ haddr =>
    (yields_uintField _ _).bind fun _ hlen =>
      .pure ⟨by simp [hnumbers, hid, haddr, hlen], hnamed _ _ _, trivial⟩

theorem yields_parseNicMmioR : parseNicMmioR.Yields StreamKind :=
  yields_parseNicMmio.bind fun _ hx =>
    .pure ⟨by simp [EventKind.numbers, hx], trivial, trivial⟩

theorem yields_parseNicMmioW : parseNicMmioW.Yields StreamKind :=
  yields_parseNicMmio.bind fun _ hx => .after fun _ =>
    .pure ⟨by simp [EventKind.numbers, hx], trivial, trivial⟩

theorem yields_parseHostMmioR : parseHostMmioR.Yields StreamKind :=
  yields_parseHostAddrSizeOp.bind fun _ hx => .after fun _ =>
    (yields_uintField _ _).bind fun _ hoffset =>
      .pure ⟨by simp [EventKind.numbers, hx, hoffset], trivial, trivial⟩

theorem yields_parseHostMmioW : parseHostMmioW.Yields StreamKind :=
  yields_parseHostAddrSizeOp.bind fun _ hx => .after fun _ =>
    (yields_uintField _ _).bind fun _ hoffset => .after fun _ =>
      .pure ⟨by simp [EventKind.numbers, hx, hoffset], trivial, trivial⟩

theorem yields_parseHostConf (isRead : Bool) : (parseHostConf isRead).Yields StreamKind := by
  refine (yields_uintField _ _).bind fun dev hdev => (yields_uintField _ _).bind fun func hfunc => ?_
  refine (yields_uintField _ _).bind fun reg hreg => (yields_uintField _ _).bind fun b hb => ?_
  refine (yields_uintField _ _).bind fun data hdata => .pure ⟨?_, trivial, trivial⟩
  simp [EventKind.numbers, hdev, hfunc, hreg, hb, hdata]

theorem yields_parseHostPciRW (isRead : Bool) : (parseHostPciRW isRead).Yields StreamKind :=
  (yields_uintField _ _).bind fun _ hoffset => (yields_uintField _ _).bind fun _ hsize =>
    .pure ⟨by simp [EventKind.numbers, hoffset, hsize], trivial, trivial⟩

theorem yields_parseNicMsix (isX : Bool) : (parseNicMsix isX).Yields StreamKind :=
  .after fun _ => .pure ⟨by simp [EventKind.numbers], trivial, trivial⟩

theorem yields_parseNicRx : parseNicRx.Yields StreamKind := by
  refine .after fun len => .after fun _ => .after fun _ => .pure ⟨?_, trivial, trivial⟩
  exact List.forall_mem_singleton.mpr (by decide)

theorem yields_parseNetworkEvent :
    parseNetworkEvent.Yields fun net => ∀ n ∈ net.numbers, Small n := by
  refine .after fun _ => .after fun _ => .after fun _ => .after fun _ => ?_
  refine (yields_parseUintTrim 10).bind fun uid huid => .after fun _ => .after fun _ => ?_
  refine (yields_uintField _ _).bind fun size hsize => .after fun _ => .after fun _ => ?_
  have hheaders : parseHeaders.Yields fun x =>
      (∀ e ∈ x.1, Small e.lengthType) ∧ ∀ i ∈ x.2.2, Small i.length :=
    .after fun _ => (yields_tryParseHeader yields_parseEthernetHeader).bind fun _ heth =>
      .after fun _ => .after fun _ => .after fun _ =>
        (yields_tryParseHeader yields_parseIpHeader).bind fun _ hip => .pure ⟨heth, hip⟩
  refine .after fun _ => hheaders.bind fun x hx => ?_
  exact .pure (NetworkEvent.forall_numbers huid hsize hx.1 hx.2)

theorem yields_parseKind (eventName : Bytes) : (parseKind eventName).Yields StreamKind := by
  have hplain : ∀ {k : EventKind}, k.numbers = [] → k.Named streamNames →
      (pure k : LineScan EventKind).Yields StreamKind := fun hnumbers hnamed =>
    .pure ⟨by simp [hnumbers], hnamed, trivial⟩
  have hone : ∀ (name : String) (base : ℕ) {mk : UInt64 → EventKind},
      (∀ n, (mk n).numbers = [n]) → (∀ n, (mk n).Named streamNames) →
      (uintField name base >>= fun n => pure (mk n)).Yields StreamKind :=
    fun name base mk hnumbers hnamed => (yields_uintField name base).bind fun n hn =>
      .pure ⟨by simp [hnumbers, hn], hnamed n, trivial⟩
  have hnet : ∀ {mk : NetworkEvent → EventKind}, (∀ net, (mk net).numbers = net.numbers) →
      (∀ net, (mk net).Named streamNames) →
      (parseNetworkEvent >>= fun net => pure (mk net)).Yields StreamKind :=
    fun hnumbers hnamed => yields_parseNetworkEvent.bind fun net hsmall =>
      .pure ⟨hnumbers net ▸ hsmall, hnamed net, trivial⟩
  unfold parseKind
  refine .ite (hplain rfl trivial) (.ite (hplain rfl trivial) ?_)
  refine .ite (hone _ _ (fun _ => rfl) fun _ => trivial) (.ite yields_parseHostCall ?_)
  refine .ite (hplain rfl trivial) (.ite (hone _ _ (fun _ => rfl) fun _ => trivial) ?_)
  refine .ite (hone _ _ (fun _ => rfl) fun _ => trivial) ?_
  refine .ite (hone _ _ (fun _ => rfl) fun _ => trivial) ?_
  refine .ite yields_parseHostMmioR (.ite yields_parseHostMmioW ?_)
  refine .ite (yields_parseHostDma (fun _ _ _ => rfl) fun _ _ _ => trivial) ?_
  refine .ite (yields_parseHostDma (fun _ _ _ => rfl) fun _ _ _ => trivial) ?_
  refine .ite (hone _ _ (fun _ => rfl) fun _ => trivial) ?_
  refine .ite (yields_parseHostConf true) (.ite (yields_parseHostConf false) ?_)
  refine .ite (hplain rfl trivial) (.ite (hplain rfl trivial) ?_)
  refine .ite (yields_parseHostPciRW true) (.ite (yields_parseHostPciRW false) ?_)
  refine .ite (yields_parseNicMsix true) (.ite (yields_parseNicMsix false) ?_)
  refine .ite (hone _ _ (fun _ => rfl) fun _ => trivial) ?_
  refine .ite (yields_parseNicDma (fun _ _ _ => rfl) fun _ _ _ => trivial) ?_
  refine .ite (yields_parseNicDma (fun _ _ _ => rfl) fun _ _ _ => trivial) ?_
  refine .ite (yields_parseNicDma (fun _ _ _ => rfl) fun _ _ _ => trivial) ?_
  refine .ite (yields_parseNicDma (fun _ _ _ => rfl) fun _ _ _ => trivial) ?_
  refine .ite (yields_parseNicDma (fun _ _ _ => rfl) fun _ _ _ => trivial) ?_
  refine .ite yields_parseNicMmioR (.ite yields_parseNicMmioW ?_)
  refine .ite (hone _ _ (fun _ => rfl) fun _ => trivial) (.ite yields_parseNicRx ?_)
  refine .ite (hnet (fun _ => rfl) fun _ => trivial) ?_
  refine .ite (hnet (fun _ => rfl) fun _ => trivial) ?_
  exact .ite (hnet (fun _ => rfl) fun _ => trivial) .fail

end EventStream

namespace Parser

/-- The names of the calls that a parser knows. -/
def names : Parser → UInt64 → Bytes → Bytes → Prop
  | gem5 parser => parser.names
  | nicBm _ | ns3 _ => fun _ _ _ => False
  | eventStream => streamNames

/-- Whether the events are those of a network. -/
def network : Parser → Bool → Prop
  | gem5 _ | nicBm _ => (· = false)
  | ns3 _ => (· = true)
  | eventStream => fun _ => True

/-- Who the events come from. -/
def Signs : Parser → Event → Prop
  | gem5 parser => fun ev => ev.parserName = parser.name ∧ ev.parserIdentifier = parser.identifier
  | nicBm parser | ns3 parser => fun ev =>
    ev.parserName = parser.name ∧ ev.parserIdentifier = parser.identifier
  | eventStream => fun ev => (ev.parserName ≠ [] ∧ ∀ c ∈ ev.parserName, isSourceName c = true) ∧
    Small ev.parserIdentifier

/-- The events that a parser accepts. -/
structure Accepts (parser : Parser) (ev : Event) : Prop where
  signed : parser.Signs ev
  timestamp : Small ev.timestamp
  kind : ev.kind.Accepted parser.names parser.network

/-- `ParseEvent` of a log: a time stamp, a kind, and nothing of an empty line. -/
theorem yields_event {post : Event → Prop} {p : LineScan Event}
    (hp : p.Yields post) : Scan.Yields (fun h => if h.isEmpty then (none, h) else p h) post := by
  intro h ev hev
  by_cases hempty : h.isEmpty = true
  · simp only [hempty, if_true] at hev
    cases hev
  · simp only [hempty] at hev
    exact hp h ev hev

theorem yields_parseEvent (parser : Parser) : parser.parseEvent.Yields parser.Accepts := by
  cases parser with
  | gem5 parser =>
    refine yields_event (yields_parseTimestamp.bind fun ts hts => ?_)
    refine .after fun _ => .after fun _ => parser.yields_parseKind.bind fun k hk => ?_
    exact .pure ⟨⟨rfl, rfl⟩, hts, hk⟩
  | nicBm parser =>
    refine yields_event (.after fun _ => .after fun _ => .after fun _ => ?_)
    refine yields_parseTimestamp.bind fun ts hts => .after fun _ => ?_
    exact NicBmParser.yields_parseKind.bind fun k hk => .pure ⟨⟨rfl, rfl⟩, hts, hk⟩
  | ns3 parser =>
    refine yields_event (.after fun type => .after fun _ => ?_)
    refine yields_parseTimestamp.bind fun ts hts => .after fun _ => .after fun node => ?_
    refine .after fun _ => .after fun device => .after fun deviceType => ?_
    exact (NS3Parser.yields_parseNetDevice _ _ _ _).bind fun k hk => .pure ⟨⟨rfl, rfl⟩, hts, hk⟩
  | eventStream =>
    have hhead : parseIdentNameTs.Yields fun x => Small x.1 ∧
        (x.2.1 ≠ [] ∧ ∀ c ∈ x.2.1, isSourceName c = true) ∧ Small x.2.2 :=
      (yields_uintField _ _).bind fun _ hid => (yields_textField _ _).bind fun _ hname =>
        (yields_uintField _ _).bind fun _ hts => .pure ⟨hid, hname, hts⟩
    refine .after fun _ => .after fun name => hhead.bind fun x hx => ?_
    exact (yields_parseKind name).bind fun k hk => .pure ⟨⟨hx.2.1, hx.1⟩, hx.2.2, hk⟩

/-- Every event of a line is one that the parser accepts. -/
theorem accepts_eventOf {parser : Parser} {line : Bytes} {ev : Event}
    (h : parser.eventOf line = some ev) : parser.Accepts ev :=
  parser.yields_parseEvent _ _ h

end Parser

/-- The events that reach a spanner come from its parser. -/
theorem TracePipeline.accepts_of_mem {B : ℕ} {setup : TracePipeline} {ev : Event}
    (hev : ev ∈ setup.events B) : setup.logParser.Accepts ev := by
  have hparsed := (Handler.runAll_byValue_sublist setup.handlers _).subset hev
  obtain ⟨line, -, hline⟩ := List.mem_filterMap.mp hparsed
  exact Parser.accepts_eventOf hline

end Columbo
