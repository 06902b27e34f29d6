import Columbo.AddressText
import Columbo.ExportedAttributes

/-!
# Attributes and the fields of an event

What the attributes of an event show, next to the fields that the event has
under the same names. The configuration accesses of the host export the number
of bytes in place of the data, and the DMA operations of the network card their
identifier in place of the address. Everything else that is exported is the
event's own, and is told apart by its rendering.
-/
namespace Columbo

/-- The value of a field, by the way it is rendered. -/
inductive FieldValue
  | uint (n : ℕ)
  | hex (n : ℕ)
  | int (i : Int32)
  | flag (b : Bool)
  | text (s : Bytes)
  | deviceType (d : NetworkDeviceType)
  | boundaryType (b : EventBoundaryType)
  | mac (a : MacAddress)
  | ip (a : Ipv4)
  deriving DecidableEq

namespace FieldValue

def render : FieldValue → Bytes
  | uint n => toString10 n
  | hex n => bytes "0x" ++ numText 16 n
  | int i => toStringInt i
  | flag b => boolToString b
  | text s => s
  | deviceType d => d.text
  | boundaryType b => b.text
  | mac a => valueToString a.display
  | ip a => valueToString a.display

/-- The values are rendered the same way. -/
def SameShape : FieldValue → FieldValue → Prop
  | uint _, uint _ | hex _, hex _ | int _, int _ | flag _, flag _ | text _, text _ => True
  | deviceType _, deviceType _ | boundaryType _, boundaryType _ | mac _, mac _ | ip _, ip _ => True
  | _, _ => False

theorem SameShape.trans_symm {u v w : FieldValue} (hv : v.SameShape u) (hw : w.SameShape u) :
    v.SameShape w := by
  cases u <;> cases v <;> first
    | exact hv.elim
    | cases w <;> first | exact hw.elim | trivial

theorem toStringInt_inj {i j : Int32} (h : toStringInt i = toStringInt j) : i = j := by
  have hminus : ∀ n t, toString10 n ≠ byte '-' :: t := by
    intro n t hn
    have hnum := isNum_of_mem_numText (n := n) (c := byte '-') (by
      rw [← toString10, hn]
      exact List.mem_cons_self)
    exact absurd hnum (by decide)
  have hsign : ∀ i : Int32, i < 0 ↔ i.toInt < 0 := fun i => Int32.lt_iff_toInt_lt
  have hclamp : ∀ i : Int32, i.toNatClampNeg = i.toInt.toNat := fun _ => rfl
  rw [← Int32.toInt_inj]
  unfold toStringInt at h
  split_ifs at h with hi hj hj
  · have habs := numText_inj (by decide) (by decide) (List.cons.inj h).2
    rw [hsign] at hi hj
    omega
  · exact absurd h.symm (hminus _ _)
  · exact absurd h (hminus _ _)
  · have hnat := numText_inj (by decide) (by decide) h
    rw [hclamp, hclamp] at hnat
    rw [hsign] at hi hj
    omega

theorem eq_of_reads {α : Type} {p : LineScan α} {t : Bytes} {a b : α}
    (h : Reads (AtText []) p t a StopsAlnum) (h' : Reads (AtText []) p t b StopsAlnum) : a = b := by
  have hv : AtText [] (.ofLine t [kLineEnd]) (t ++ []) := by
    rw [List.append_nil]
    exact atText_ofLine t []
  exact h.unique h' hv stopsAlnum_nil stopsAlnum_nil

theorem valueToString_mac_inj {a b : MacAddress}
    (h : valueToString a.display = valueToString b.display) : a = b := by
  have htext : ∀ a : MacAddress, valueToString a.display = macText a := fun a =>
    (MacAddress.prints_display a).text_fresh
  rw [htext, htext] at h
  exact eq_of_reads (reads_parseMacAddress a) (h ▸ reads_parseMacAddress b)

theorem valueToString_ip_inj {a b : Ipv4}
    (h : valueToString a.display = valueToString b.display) : a = b := by
  have htext : ∀ a : Ipv4, valueToString a.display = a.text := fun a =>
    (Ipv4.prints_display a).text_fresh
  rw [htext, htext] at h
  exact eq_of_reads (reads_parseIpAddress a) (h ▸ reads_parseIpAddress b)

/-- Values of one shape are told apart by their rendering. -/
theorem render_inj {v w : FieldValue} (hshape : v.SameShape w) (h : v.render = w.render) :
    v = w := by
  cases v <;> cases w <;> first | exact hshape.elim | skip
  case uint.uint n n' => exact congrArg uint (numText_inj (by decide) (by decide) h)
  case hex.hex n n' =>
    exact congrArg hex (numText_inj (by decide) (by decide) (List.append_cancel_left h))
  case int.int i j => exact congrArg int (toStringInt_inj h)
  case flag.flag b b' => cases b <;> cases b' <;> first | rfl | exact absurd h (by decide)
  case text.text s s' => exact congrArg text h
  case deviceType.deviceType d d' =>
    cases d <;> cases d' <;> first | rfl | exact absurd h (by decide)
  case boundaryType.boundaryType b b' =>
    cases b <;> cases b' <;> first | rfl | exact absurd h (by decide)
  case mac.mac a b => exact congrArg mac (valueToString_mac_inj h)
  case ip.ip a b => exact congrArg ip (valueToString_ip_inj h)

end FieldValue

open FieldValue OtlpSpanExporter

def EthernetHeader.fields (header : EthernetHeader) : List (String × FieldValue) :=
  [("src-mac", mac header.srcMac), ("dst-mac", mac header.dstMac),
   ("length-type", hex header.lengthType.toNat)]

def ArpHeader.fields (header : ArpHeader) : List (String × FieldValue) :=
  [("request", flag header.isRequest), ("src-ip", ip header.srcIp), ("dst-ip", ip header.dstIp)]

def Ipv4Header.fields (header : Ipv4Header) : List (String × FieldValue) :=
  [("length", uint header.length.toNat), ("src-ip", ip header.srcIp), ("dst-ip", ip header.dstIp)]

/-- The fields of the headers that an event has. -/
def NetworkEvent.headerFields (net : NetworkEvent) : List (String × FieldValue) :=
  net.ethernetHeader.elim [] EthernetHeader.fields ++ net.arpHeader.elim [] ArpHeader.fields ++
    net.ipHeader.elim [] Ipv4Header.fields

def NetworkEvent.fields (net : NetworkEvent) : List (String × FieldValue) :=
  [("node", int net.node), ("device", int net.device),
   ("device-type", .deviceType net.deviceType), ("payload-size", uint net.payloadSize.toNat),
   ("boundary-type", .boundaryType net.boundaryType)] ++ net.headerFields

/-- The fields of the class of an event, under their names as attributes. -/
def EventKind.fields : EventKind → List (String × FieldValue)
  | simSendSync | simProcInEvent | hostMmioImRespPoW | hostClearInt | hostPostInt | setIX _ => []
  | hostInstr pc => [("pc", uint pc.toNat)]
  | hostCall pc func comp =>
    [("pc", uint pc.toNat)] ++ func.elim [] (fun s => [("func", text s)]) ++
      comp.elim [] (fun s => [("comp", text s)])
  | hostMmioCR id | hostMmioCW id | hostDmaC id => [("id", uint id.toNat)]
  | hostMmioR id addr size bar offset =>
    [("id", uint id.toNat), ("addr", uint addr.toNat), ("size", uint size.toNat),
     ("bar", int bar), ("offset", uint offset.toNat)]
  | hostMmioW id addr size bar offset posted =>
    [("id", uint id.toNat), ("addr", uint addr.toNat), ("size", uint size.toNat),
     ("bar", int bar), ("offset", uint offset.toNat), ("posted", flag posted)]
  | hostDmaR id addr size | hostDmaW id addr size =>
    [("id", uint id.toNat), ("addr", uint addr.toNat), ("size", uint size.toNat)]
  | hostMsiX vec => [("vec", uint vec.toNat)]
  | hostConf dev func reg bytes data isRead =>
    [("dev", uint dev.toNat), ("func", uint func.toNat), ("reg", uint reg.toNat),
     ("bytes", uint bytes.toNat), ("data", uint data.toNat), ("is_read", flag isRead)]
  | hostPciRW offset size isRead =>
    [("offset", uint offset.toNat), ("size", uint size.toNat), ("is_read", flag isRead)]
  | nicMsix vec isX => [("vec", uint vec.toNat), ("isX", flag isX)]
  | nicDmaI id addr len | nicDmaEx id addr len | nicDmaEn id addr len
  | nicDmaCR id addr len | nicDmaCW id addr len =>
    [("id", uint id.toNat), ("addr", uint addr.toNat), ("len", uint len.toNat)]
  | nicMmioR off len val =>
    [("off", uint off.toNat), ("len", uint len.toNat), ("val", uint val.toNat)]
  | nicMmioW off len val posted =>
    [("off", uint off.toNat), ("len", uint len.toNat), ("val", uint val.toNat),
     ("posted", flag posted)]
  | nicTx len => [("len", uint len.toNat), ("is_read", flag false)]
  | nicRx port len => [("len", uint len.toNat), ("is_read", flag true), ("port", int port)]
  | networkEnqueue net | networkDequeue net | networkDrop net => net.fields

/-- All fields of an event, under their names as attributes. -/
def Event.fields (e : Event) : List (String × FieldValue) :=
  [("timestamp", uint e.timestamp.toNat), ("parser_ident", uint e.parserIdentifier.toNat),
   ("parser name", text e.parserName)] ++ e.kind.fields

/-- The keys of attributes that stand for fields. -/
def fieldKeys : List String :=
  ["timestamp", "parser_ident", "parser name", "pc", "func", "comp", "id", "addr", "size", "bar",
   "offset", "vec", "isX", "dev", "reg", "bytes", "data", "is_read", "len", "off", "val", "posted",
   "port", "node", "device", "device-type", "payload-size", "boundary-type", "src-mac", "dst-mac",
   "length-type", "request", "length", "src-ip", "dst-ip"]

/-- Not both an ARP and an IPv4 header. -/
def EventKind.OneHeader : EventKind → Prop
  | networkEnqueue net | networkDequeue net | networkDrop net =>
    net.arpHeader = none ∨ net.ipHeader = none
  | _ => True

/-- The event with the values that its attributes show. -/
def EventKind.shown : EventKind → EventKind
  | hostConf dev func reg bytes _ isRead => hostConf dev func reg bytes bytes isRead
  | nicDmaI id _ len => nicDmaI id id len
  | nicDmaEx id _ len => nicDmaEx id id len
  | nicDmaEn id _ len => nicDmaEn id id len
  | nicDmaCR id _ len => nicDmaCR id id len
  | nicDmaCW id _ len => nicDmaCW id id len
  | kind => kind

def Event.shown (e : Event) : Event := { e with kind := e.kind.shown }

/-- What is exported, the rendered fields and two attributes that stand for no field. -/
def EventKind.exported : EventKind → List (String × FieldValue)
  | hostMmioW id addr size bar offset _ => (hostMmioR id addr size bar offset).fields
  | nicTx len => [("len", uint len.toNat)]
  | nicRx port len => [("len", uint len.toNat), ("port", int port)]
  | networkEnqueue net | networkDequeue net | networkDrop net =>
    [("node", int net.node), ("device", int net.device),
     ("device-type", .deviceType net.deviceType), ("payload-size", uint net.payloadSize.toNat),
     ("boundary-type", boundaryType net.boundaryType), ("device-tpe", deviceType net.deviceType)] ++
      net.headerFields
  | kind => kind.shown.fields

def Event.exported (e : Event) : List (String × FieldValue) :=
  [("timestamp", uint e.timestamp.toNat), ("parser_ident", uint e.parserIdentifier.toNat),
   ("parser name", text e.parserName), ("type", text e.kind.getType.text)] ++ e.kind.exported

section Exported

variable {e : Event} {m : Attributes}

theorem addNetworkEvent_eq (net : NetworkEvent) :
    addNetworkEvent .empty e net = SortedMap.insertAll .empty
      ((([("timestamp", uint e.timestamp.toNat), ("parser_ident", uint e.parserIdentifier.toNat),
        ("parser name", text e.parserName), ("type", text e.kind.getType.text)] : List _) ++
        (EventKind.networkEnqueue net).exported).map fun f => (f.1, f.2.render)) := by
  rw [addNetworkEvent]
  cases heth : net.ethernetHeader <;> cases harp : net.arpHeader <;> cases hip : net.ipHeader <;>
    simp only [addEvent, ← SortedMap.insertAll_append, EventKind.exported,
      NetworkEvent.headerFields, heth, harp, hip, Option.elim_none, Option.elim_some, List.append_nil] <;> rfl

theorem attributesOf_eq (h : attributesOf e = some m) :
    m = SortedMap.insertAll .empty (e.exported.map fun f => (f.1, f.2.render)) := by
  rw [Event.exported]
  cases hkind : e.kind with
  | simSendSync | simProcInEvent | hostInstr | setIX | nicDmaEn =>
    simp [attributesOf, hkind] at h
  | hostCall pc func comp =>
    simp only [attributesOf, hkind] at h
    cases func with
    | none => cases h
    | some func =>
      cases comp with
      | none => cases h
      | some comp =>
        rw [← Option.some.inj h]
        simp only [addHostInstr, addEvent, hkind,
          ← SortedMap.insertAll_append]
        rfl
  | networkEnqueue net | networkDequeue net | networkDrop net =>
    simp only [attributesOf, hkind, Option.some.injEq] at h
    rw [← h, addNetworkEvent_eq, hkind]
    first | done | rfl
  | _ =>
    simp only [attributesOf, hkind, Option.some.injEq] at h
    rw [← h]
    simp only [addHostMmioImRespPoW, addHostMmioCR,
      addHostMmioCW, addHostMmioR, addHostMmioW,
      addHostMmioOp, addHostDmaC, addHostDmaR,
      addHostDmaW, addHostAddrSizeOp,
      addHostIdOp, addHostMsiX, addHostConf,
      addHostClearInt, addHostPostInt,
      addHostPciRW, addNicMsix, addNicDmaI,
      addNicDmaEx, addNicDmaCR, addNicDmaCW,
      addNicDma, addNicMmioR, addNicMmioW,
      addNicMmio, addNicTx, addNicRx,
      addNicTrx, addEvent, hkind, ← SortedMap.insertAll_append]
    rfl

/-- The way the values of a key are rendered. The function of a call has a name,
the function of a configuration access a number. -/
def shapeOf (type : EventType) (key : String) : FieldValue :=
  if key = "func" ∧ type = .kHostConfT then uint 0
  else if key ∈ ["parser name", "type", "func", "comp"] then text []
  else if key ∈ ["bar", "port", "node", "device"] then int 0
  else if key ∈ ["isX", "is_read", "posted", "request"] then flag true
  else if key ∈ ["device-type", "device-tpe"] then .deviceType .kCosimNetDevice
  else if key = "boundary-type" then .boundaryType .kToAdapter
  else if key = "length-type" then hex 0
  else if key ∈ ["src-mac", "dst-mac"] then mac (List.Vector.replicate 6 0)
  else if key ∈ ["src-ip", "dst-ip"] then ip ⟨0⟩
  else uint 0

theorem mem_elim {α β : Type} {o : Option α} {g : α → List β} {x : β} :
    x ∈ o.elim [] g ↔ ∃ a ∈ o, x ∈ g a := by
  cases o <;> simp

theorem NetworkEvent.sameShape_headerFields (net : NetworkEvent) (type : EventType) :
    ∀ f ∈ net.headerFields, f.2.SameShape (shapeOf type f.1) := by
  simp only [NetworkEvent.headerFields, List.mem_append, mem_elim]
  rintro f ((⟨header, -, h⟩ | ⟨header, -, h⟩) | ⟨header, -, h⟩)
  · revert f
    simp [EthernetHeader.fields, shapeOf, SameShape]
  · revert f
    simp [ArpHeader.fields, shapeOf, SameShape]
  · revert f
    simp [Ipv4Header.fields, shapeOf, SameShape]

theorem EventKind.sameShape (kind : EventKind) :
    ∀ f ∈ kind.exported, f.2.SameShape (shapeOf kind.getType f.1) := by
  cases kind with
  | networkEnqueue net | networkDequeue net | networkDrop net =>
    refine List.forall_mem_append.mpr ⟨?_, net.sameShape_headerFields _⟩
    simp [shapeOf, SameShape]
  | hostCall pc func comp =>
    cases func <;> cases comp <;>
      simp [EventKind.exported, EventKind.shown, EventKind.fields, EventKind.getType, shapeOf,
        SameShape]
  | _ =>
    simp [EventKind.exported, EventKind.shown, EventKind.fields, EventKind.getType, shapeOf,
      SameShape]

theorem sameShape_shapeOf {f : String × FieldValue} (h : f ∈ e.exported) :
    f.2.SameShape (shapeOf e.kind.getType f.1) := by
  have hall : ∀ f ∈ e.exported, f.2.SameShape (shapeOf e.kind.getType f.1) := by
    refine List.forall_mem_append.mpr ⟨?_, e.kind.sameShape⟩
    simp [shapeOf, SameShape]
  exact hall f h

/-- With one header the keys of the headers are distinct. -/
theorem NetworkEvent.headerKeys_sublist {net : NetworkEvent}
    (hone : net.arpHeader = none ∨ net.ipHeader = none) :
    List.Sublist (net.headerFields.map Prod.fst)
      ["src-mac", "dst-mac", "length-type", "request", "length", "src-ip", "dst-ip"] := by
  rw [NetworkEvent.headerFields]
  rcases hone with hone | hone
  · rw [hone]
    cases net.ethernetHeader <;> cases net.ipHeader <;>
      simp only [Option.elim_none, Option.elim_some, EthernetHeader.fields, Ipv4Header.fields,
        List.append_nil, List.nil_append, List.map_append, List.map_cons, List.map_nil] <;> decide
  · rw [hone]
    cases net.ethernetHeader <;> cases net.arpHeader <;>
      simp only [Option.elim_none, Option.elim_some, EthernetHeader.fields, ArpHeader.fields,
        List.append_nil, List.nil_append, List.map_append, List.map_cons, List.map_nil] <;> decide

/-- The keys of a class are among distinct keys. -/
theorem EventKind.nodup_exported {kind : EventKind} (hone : kind.OneHeader) :
    (["timestamp", "parser_ident", "parser name", "type"] ++ kind.exported.map Prod.fst).Nodup := by
  cases kind with
  | networkEnqueue net | networkDequeue net | networkDrop net =>
    have hkeys := (List.Sublist.refl ["timestamp", "parser_ident", "parser name", "type", "node",
      "device", "device-type", "payload-size", "boundary-type", "device-tpe"]).append
      (NetworkEvent.headerKeys_sublist hone)
    rw [EventKind.exported, List.map_append]
    exact List.Nodup.sublist hkeys (by decide)
  | hostCall pc func comp =>
    cases func <;> cases comp <;>
      simp only [EventKind.exported, EventKind.shown, EventKind.fields, Option.elim_none,
        Option.elim_some, List.append_nil, List.map_append, List.map_cons, List.map_nil] <;> decide
  | _ =>
    simp only [EventKind.exported, EventKind.shown, EventKind.fields, List.map_cons, List.map_nil]
    decide

theorem EventKind.nodup_fields {kind : EventKind} (hone : kind.OneHeader) :
    (["timestamp", "parser_ident", "parser name"] ++ kind.fields.map Prod.fst).Nodup := by
  cases kind with
  | networkEnqueue net | networkDequeue net | networkDrop net =>
    have hkeys := (List.Sublist.refl ["timestamp", "parser_ident", "parser name", "node", "device",
      "device-type", "payload-size", "boundary-type"]).append
      (NetworkEvent.headerKeys_sublist hone)
    rw [EventKind.fields, NetworkEvent.fields, List.map_append]
    exact List.Nodup.sublist hkeys (by decide)
  | hostCall pc func comp =>
    cases func <;> cases comp <;>
      simp only [EventKind.fields, Option.elim_none,
        Option.elim_some, List.append_nil, List.map_append, List.map_cons, List.map_nil] <;> decide
  | _ =>
    simp only [EventKind.fields, List.map_cons, List.map_nil]
    decide

theorem EventKind.mem_shown_of_exported {kind : EventKind} {f : String × FieldValue}
    (hkey : f.1 ∈ fieldKeys) (h : f ∈ kind.exported) : f ∈ kind.shown.fields := by
  cases kind with
  | networkEnqueue net | networkDequeue net | networkDrop net =>
    have hno : f ≠ ("device-tpe", .deviceType net.deviceType) := by
      rintro rfl
      exact absurd (show "device-tpe" ∈ fieldKeys from hkey) (by decide)
    simp only [EventKind.exported, List.mem_append, List.mem_cons, List.not_mem_nil, or_false, hno]
      at h
    simpa only [EventKind.shown, EventKind.fields, NetworkEvent.fields, List.mem_append,
      List.mem_cons, List.not_mem_nil, or_false] using h
  | hostMmioW id addr size bar offset posted =>
    exact List.mem_append_left [("posted", flag posted)] h
  | nicTx len => exact List.mem_append_left [("is_read", flag false)] h
  | nicRx port len =>
    simp only [EventKind.exported, EventKind.shown, EventKind.fields, List.mem_cons] at h ⊢
    tauto
  | _ => exact h

theorem mem_shown_of_exported {f : String × FieldValue} (hkey : f.1 ∈ fieldKeys)
    (h : f ∈ e.exported) : f ∈ e.shown.fields := by
  rcases List.mem_append.mp h with h | h
  · refine List.mem_append_left _ ?_
    have hno : f ≠ ("type", text e.kind.getType.text) := by
      rintro rfl
      exact absurd (show "type" ∈ fieldKeys from hkey) (by decide)
    simp only [List.mem_cons, List.not_mem_nil, or_false, hno] at h ⊢
    exact h
  · exact List.mem_append_right _ (EventKind.mem_shown_of_exported hkey h)

end Exported

section Agreement

variable {e e' : Event} {m m' : Attributes}

/-- Every attribute under a key of a field is the rendering of the one field of that name. -/
def ExportsOwnFields (e : Event) (m : Attributes) : Prop :=
  ∀ key ∈ fieldKeys, ∀ rendered, m.find? key = some rendered →
    ∃ v, (∀ w, (key, w) ∈ e.fields ↔ w = v) ∧ rendered = v.render

/-- Events that differ in a field for which there is an attribute have different attributes. -/
def ToldApart (e e' : Event) (m m' : Attributes) : Prop :=
  (∃ key ∈ fieldKeys, ((m.find? key).isSome ∨ (m'.find? key).isSome) ∧
    ∃ v, ¬((key, v) ∈ e.fields ↔ (key, v) ∈ e'.fields)) → m ≠ m'

/-- The data of a configuration access is its number of bytes, and the address of
a DMA operation of the network card its identifier. -/
def EventKind.ShowsOwn : EventKind → Prop
  | hostConf _ _ _ bytes data _ => data = bytes
  | nicDmaI id addr _ | nicDmaEx id addr _ | nicDmaEn id addr _ | nicDmaCR id addr _
  | nicDmaCW id addr _ => addr = id
  | _ => True

theorem shown_eq_iff : e.shown = e ↔ e.kind.ShowsOwn := by
  obtain ⟨ts, ident, name, kind⟩ := e
  cases kind <;> simp [Event.shown, EventKind.shown, EventKind.ShowsOwn, eq_comm]

theorem find?_eq_some_iff (h : attributesOf e = some m) (hone : e.kind.OneHeader) {key : String}
    {rendered : Bytes} :
    m.find? key = some rendered ↔ ∃ v, (key, v) ∈ e.exported ∧ v.render = rendered := by
  have hnodup : ((e.exported.map fun f => (f.1, f.2.render)).map Prod.fst).Nodup := by
    rw [List.map_map]
    exact EventKind.nodup_exported hone
  rw [attributesOf_eq h, SortedMap.find?_insertAll_of_nodup hnodup, List.mem_map]
  constructor
  · rintro ⟨⟨key', v⟩, hmem, heq⟩
    obtain ⟨rfl, rfl⟩ := Prod.mk.inj heq
    exact ⟨v, hmem, rfl⟩
  · rintro ⟨v, hmem, rfl⟩
    exact ⟨(key, v), hmem, rfl⟩

/-- A name stands for one field. -/
theorem field_unique (hone : e.kind.OneHeader) {key : String} {v w : FieldValue}
    (hv : (key, v) ∈ e.fields) (hw : (key, w) ∈ e.fields) : v = w := by
  have hnodup : (e.fields.map Prod.fst).Nodup := EventKind.nodup_fields hone
  exact (Prod.mk.inj (List.inj_on_of_nodup_map hnodup hv hw rfl)).2

theorem exportsOwnFields_of_shown (h : attributesOf e = some m) (hone : e.kind.OneHeader)
    (hown : e.shown = e) : ExportsOwnFields e m := by
  intro key hkey rendered hfind
  obtain ⟨v, hmem, rfl⟩ := (find?_eq_some_iff h hone).mp hfind
  have hfield : (key, v) ∈ e.fields := hown ▸ mem_shown_of_exported hkey hmem
  exact ⟨v, fun w => ⟨fun hw => field_unique hone hw hfield, fun hw => hw ▸ hfield⟩, rfl⟩

/-- An attribute with a number is the number of the field of its name. -/
theorem uint_of_exportsOwnFields (h : attributesOf e = some m) (hone : e.kind.OneHeader)
    (hown : ExportsOwnFields e m) {key : String} (hkey : key ∈ fieldKeys) {n n' : ℕ}
    (hexported : (key, uint n) ∈ e.exported) (hfield : (key, uint n') ∈ e.fields) : n' = n := by
  obtain ⟨v, hv, hrender⟩ :=
    hown key hkey _ ((find?_eq_some_iff h hone).mpr ⟨uint n, hexported, rfl⟩)
  obtain rfl : uint n' = v := (hv _).mp hfield
  exact numText_inj (by decide) (by decide) hrender.symm

/-- Whether an attribute shows another field. -/
def EventKind.hides : EventKind → Bool
  | hostConf .. | nicDmaI .. | nicDmaEx .. | nicDmaEn .. | nicDmaCR .. | nicDmaCW .. => true
  | _ => false

/-- The name of the field that is not shown. -/
def EventKind.hiddenKey : EventKind → String
  | hostConf .. => "data"
  | _ => "addr"

/-- The value of the field that is not shown. -/
def EventKind.hidden : EventKind → UInt64
  | hostConf _ _ _ _ data _ => data
  | nicDmaI _ addr _ | nicDmaEx _ addr _ | nicDmaEn _ addr _ | nicDmaCR _ addr _
  | nicDmaCW _ addr _ => addr
  | _ => 0

/-- The value that is shown in its place. -/
def EventKind.standIn : EventKind → UInt64
  | hostConf _ _ _ bytes _ _ => bytes
  | nicDmaI id _ _ | nicDmaEx id _ _ | nicDmaEn id _ _ | nicDmaCR id _ _
  | nicDmaCW id _ _ => id
  | _ => 0

theorem EventKind.hidden_spec {kind : EventKind} (h : kind.hides = true) :
    kind.hiddenKey ∈ fieldKeys ∧ (kind.hiddenKey, uint kind.hidden.toNat) ∈ kind.fields ∧
      (kind.hiddenKey, uint kind.standIn.toNat) ∈ kind.exported := by
  cases kind with
  | hostConf | nicDmaI | nicDmaEx | nicDmaEn | nicDmaCR | nicDmaCW =>
    exact ⟨by simp [hiddenKey, fieldKeys], by simp [hiddenKey, hidden, fields],
      by simp [hiddenKey, standIn, exported, shown, fields]⟩
  | _ => cases h

/-- The field that is not shown, put back. -/
def EventKind.withHidden (x : UInt64) : EventKind → EventKind
  | hostConf dev func reg bytes _ isRead => hostConf dev func reg bytes x isRead
  | nicDmaI id _ len => nicDmaI id x len
  | nicDmaEx id _ len => nicDmaEx id x len
  | nicDmaEn id _ len => nicDmaEn id x len
  | nicDmaCR id _ len => nicDmaCR id x len
  | nicDmaCW id _ len => nicDmaCW id x len
  | kind => kind

@[simp] theorem EventKind.withHidden_shown (kind : EventKind) :
    kind.shown.withHidden kind.hidden = kind := by
  cases kind <;> rfl

@[simp] theorem EventKind.hides_shown (kind : EventKind) : kind.shown.hides = kind.hides := by
  cases kind <;> rfl

@[simp] theorem EventKind.hiddenKey_shown (kind : EventKind) :
    kind.shown.hiddenKey = kind.hiddenKey := by
  cases kind <;> rfl

theorem EventKind.shown_eq_self {kind : EventKind} (h : kind.hides = false) :
    kind.shown = kind := by
  cases kind <;> first | rfl | cases h

/-- Classes with a hidden field that export the same differ in that field alone. -/
theorem EventKind.hidden_of_shown_eq {kind kind' : EventKind} (h : kind.shown = kind'.shown)
    (hne : kind ≠ kind') :
    kind.hides = true ∧ kind.hiddenKey = kind'.hiddenKey ∧ kind.hidden ≠ kind'.hidden := by
  have hkey : kind.hiddenKey = kind'.hiddenKey := by
    rw [← kind.hiddenKey_shown, h, kind'.hiddenKey_shown]
  have hhides : kind.hides = kind'.hides := by
    rw [← kind.hides_shown, h, kind'.hides_shown]
  refine ⟨?_, hkey, fun hhidden => hne ?_⟩
  · rw [← Bool.not_eq_false]
    intro hno
    rw [shown_eq_self hno, shown_eq_self (hhides ▸ hno)] at h
    exact hne h
  · rw [← kind.withHidden_shown, h, hhidden, kind'.withHidden_shown]

theorem EventKind.showsOwn_iff (kind : EventKind) :
    kind.ShowsOwn ↔ kind.hides = true → kind.hidden = kind.standIn := by
  cases kind <;> simp [ShowsOwn, hides, hidden, standIn]

theorem exportsOwnFields_iff (h : attributesOf e = some m) (hone : e.kind.OneHeader) :
    ExportsOwnFields e m ↔ e.kind.ShowsOwn := by
  refine ⟨fun hown => ?_, fun hown => exportsOwnFields_of_shown h hone (shown_eq_iff.mpr hown)⟩
  rw [EventKind.showsOwn_iff]
  intro hhides
  obtain ⟨hkey, hfield, hexported⟩ := EventKind.hidden_spec hhides
  exact UInt64.toNat_inj.mp (uint_of_exportsOwnFields h hone hown hkey
    (List.mem_append_right _ hexported) (List.mem_append_right _ hfield))

theorem attributesOf_shown (e : Event) : attributesOf e.shown = attributesOf e := by
  obtain ⟨ts, ident, name, kind⟩ := e
  cases kind <;> rfl

/-- Equal attributes of one class are renderings of equal values. -/
theorem exported_agree (h : attributesOf e = some m) (h' : attributesOf e' = some m)
    (htype : e.kind.getType = e'.kind.getType) (hone : e.kind.OneHeader)
    (hone' : e'.kind.OneHeader) {key : String} {v v' : FieldValue} (hv : (key, v) ∈ e.exported)
    (hv' : (key, v') ∈ e'.exported) : v = v' := by
  have hfind := (find?_eq_some_iff h hone).mpr ⟨v, hv, rfl⟩
  obtain ⟨w, hw, hrender⟩ := (find?_eq_some_iff h' hone').mp hfind
  have hnodup : (e'.exported.map Prod.fst).Nodup := EventKind.nodup_exported hone'
  obtain rfl : v' = w := (Prod.mk.inj (List.inj_on_of_nodup_map hnodup hv' hw rfl)).2
  refine render_inj ?_ hrender.symm
  have hshape := sameShape_shapeOf hv
  have hshape' := sameShape_shapeOf hv'
  rw [htype] at hshape
  exact hshape.trans_symm hshape'

/-- Classes with a hidden field show what they export. -/
theorem EventKind.shown_eq_of_exported {kind kind' : EventKind}
    (htype : kind.getType = kind'.getType) (hhides : kind.hides = true)
    (hagree : ∀ key v v', (key, v) ∈ kind.exported → (key, v') ∈ kind'.exported → v = v') :
    kind.shown = kind'.shown := by
  have huint : ∀ key (n n' : UInt64), (key, uint n.toNat) ∈ kind.exported →
      (key, uint n'.toNat) ∈ kind'.exported → n = n' := by
    intro key n n' hn hn'
    exact UInt64.toNat_inj.mp (uint.inj (hagree key _ _ hn hn'))
  cases kind with
  | hostConf dev func reg bytes data isRead =>
    cases kind' <;> cases htype
    rename_i dev' func' reg' bytes' data' isRead'
    obtain rfl : dev = dev' := huint "dev" _ _ (by simp [exported, shown, fields])
      (by simp [exported, shown, fields])
    obtain rfl : func = func' := huint "func" _ _ (by simp [exported, shown, fields])
      (by simp [exported, shown, fields])
    obtain rfl : reg = reg' := huint "reg" _ _ (by simp [exported, shown, fields])
      (by simp [exported, shown, fields])
    obtain rfl : bytes = bytes' := huint "bytes" _ _ (by simp [exported, shown, fields])
      (by simp [exported, shown, fields])
    obtain rfl : isRead = isRead' := flag.inj (hagree "is_read" _ _
      (by simp [exported, shown, fields]) (by simp [exported, shown, fields]))
    rfl
  | nicDmaI id addr len | nicDmaEx id addr len | nicDmaEn id addr len | nicDmaCR id addr len
  | nicDmaCW id addr len =>
    cases kind' <;> cases htype
    rename_i id' addr' len'
    obtain rfl : id = id' := huint "id" _ _ (by simp [exported, shown, fields])
      (by simp [exported, shown, fields])
    obtain rfl : len = len' := huint "len" _ _ (by simp [exported, shown, fields])
      (by simp [exported, shown, fields])
    rfl
  | _ => cases hhides

theorem EventKind.hides_eq_of_getType {kind kind' : EventKind}
    (htype : kind.getType = kind'.getType) : kind.hides = kind'.hides := by
  have hof : ∀ kind : EventKind, kind.hides = decide (kind.getType ∈ [.kHostConfT, .kNicDmaIT,
      .kNicDmaExT, .kNicDmaEnT, .kNicDmaCRT, .kNicDmaCWT]) := by
    intro kind
    cases kind <;> rfl
  rw [hof, hof, htype]

/-- Equal attributes of a class with a hidden field come from events that show the same. -/
theorem shown_eq_of_attributesOf (h : attributesOf e = some m) (h' : attributesOf e' = some m)
    (htype : e.kind.getType = e'.kind.getType) (hone : e.kind.OneHeader)
    (hone' : e'.kind.OneHeader) (hhides : e.kind.hides = true) : e.shown = e'.shown := by
  have hagree : ∀ key v v', (key, v) ∈ e.exported → (key, v') ∈ e'.exported → v = v' :=
    fun _ _ _ hv hv' => exported_agree h h' htype hone hone' hv hv'
  have hkind : e.kind.shown = e'.kind.shown := by
    refine EventKind.shown_eq_of_exported htype hhides fun key v v' hv hv' => ?_
    exact hagree key v v' (List.mem_append_right _ hv) (List.mem_append_right _ hv')
  have hts := hagree "timestamp" (uint e.timestamp.toNat) (uint e'.timestamp.toNat)
    (by simp [Event.exported]) (by simp [Event.exported])
  have hident := hagree "parser_ident" (uint e.parserIdentifier.toNat)
    (uint e'.parserIdentifier.toNat) (by simp [Event.exported]) (by simp [Event.exported])
  have hname := hagree "parser name" (text e.parserName) (text e'.parserName)
    (by simp [Event.exported]) (by simp [Event.exported])
  simp only [uint.injEq, UInt64.toNat_inj] at hts hident
  rw [Event.shown, Event.shown, hkind, hts, hident, text.inj hname]

/-- Equal attributes of a class without a hidden field come from equal fields. -/
theorem field_of_attributesOf (h : attributesOf e = some m) (h' : attributesOf e' = some m)
    (htype : e.kind.getType = e'.kind.getType) (hone : e.kind.OneHeader)
    (hone' : e'.kind.OneHeader) (hhides : e.kind.hides = false) {key : String}
    (hkey : key ∈ fieldKeys) (hsome : (m.find? key).isSome) {v : FieldValue}
    (hv : (key, v) ∈ e.fields) : (key, v) ∈ e'.fields := by
  have hhides' : e'.kind.hides = false := EventKind.hides_eq_of_getType htype ▸ hhides
  have hself : e.shown = e := by rw [Event.shown, EventKind.shown_eq_self hhides]
  have hself' : e'.shown = e' := by rw [Event.shown, EventKind.shown_eq_self hhides']
  obtain ⟨rendered, hfind⟩ := Option.isSome_iff_exists.mp hsome
  obtain ⟨w, hw, -⟩ := (find?_eq_some_iff h hone).mp hfind
  obtain ⟨w', hw', -⟩ := (find?_eq_some_iff h' hone').mp hfind
  obtain rfl : w = w' := exported_agree h h' htype hone hone' hw hw'
  obtain rfl : v = w := field_unique hone hv (hself ▸ mem_shown_of_exported hkey hw)
  exact hself' ▸ mem_shown_of_exported hkey hw'

theorem toldApart_iff (h : attributesOf e = some m) (h' : attributesOf e' = some m')
    (htype : e.kind.getType = e'.kind.getType) (hone : e.kind.OneHeader)
    (hone' : e'.kind.OneHeader) :
    ToldApart e e' m m' ↔ ¬(e ≠ e' ∧ e.shown = e'.shown) := by
  have hhides_eq := EventKind.hides_eq_of_getType htype
  constructor
  · rintro htold ⟨hne, hshown⟩
    have hm : m = m' := by
      rw [← attributesOf_shown, hshown, attributesOf_shown, h'] at h
      exact (Option.some.inj h).symm
    have hkind : e.kind ≠ e'.kind := by
      intro hkind
      have hall := Event.mk.inj hshown
      refine hne ?_
      calc e = ⟨e.timestamp, e.parserIdentifier, e.parserName, e.kind⟩ := rfl
        _ = e' := by rw [hkind, hall.1, hall.2.1, hall.2.2.1]
    obtain ⟨hhides, hkeys, hhidden⟩ :=
      EventKind.hidden_of_shown_eq (congrArg Event.kind hshown) hkind
    obtain ⟨hkey, hfield, hexported⟩ := EventKind.hidden_spec hhides
    obtain ⟨-, hfield', -⟩ := EventKind.hidden_spec (hhides_eq ▸ hhides)
    have hfind := (find?_eq_some_iff h hone).mpr ⟨_, List.mem_append_right _ hexported, rfl⟩
    refine htold ⟨e.kind.hiddenKey, hkey, .inl (by rw [hfind]; rfl),
      uint e.kind.hidden.toNat, fun hiff => hhidden ?_⟩ hm
    have hmem := hiff.mp (List.mem_append_right _ hfield)
    rw [hkeys] at hmem
    exact UInt64.toNat_inj.mp (uint.inj (field_unique hone' hmem (List.mem_append_right _ hfield')))
  · rintro hno ⟨key, hkey, hsome, v, hdiffer⟩ rfl
    have hsome : (m.find? key).isSome := hsome.elim id id
    cases hhides : e.kind.hides with
    | true =>
      refine hno ⟨fun heq => hdiffer (heq ▸ Iff.rfl), ?_⟩
      exact shown_eq_of_attributesOf h h' htype hone hone' hhides
    | false =>
      refine hdiffer ⟨fun hv => ?_, fun hv => ?_⟩
      · exact field_of_attributesOf h h' htype hone hone' hhides hkey hsome hv
      · exact field_of_attributesOf h' h htype.symm hone' hone (hhides_eq ▸ hhides) hkey hsome hv

/-- The attributes of events of one class carry their own fields except for the data of
a configuration access and the address of a DMA operation of the network card. Then
they do so where the bytes and the identifier happen to be the same, and events that
differ in nothing but what is not shown are confused. -/
theorem exportsOwnFields_toldApart_iff (h : attributesOf e = some m)
    (h' : attributesOf e' = some m') (htype : e.kind.getType = e'.kind.getType)
    (hone : e.kind.OneHeader) (hone' : e'.kind.OneHeader) :
    (ExportsOwnFields e m ↔ e.kind.ShowsOwn) ∧
      (ToldApart e e' m m' ↔ ¬(e ≠ e' ∧ e.shown = e'.shown)) :=
  ⟨exportsOwnFields_iff h hone, toldApart_iff h h' htype hone hone'⟩

theorem exportsOwnFields_toldApart_iff_conf : ∃ m m',
    attributesOf ⟨10, 1, bytes "host", .hostConf 0 0 16 4 4 true⟩ = some m ∧
    attributesOf ⟨10, 1, bytes "host", .hostConf 0 0 16 4 7 true⟩ = some m' ∧
    (ExportsOwnFields ⟨10, 1, bytes "host", .hostConf 0 0 16 4 4 true⟩ m ↔ (4 : UInt64) = 4) ∧
    (ToldApart ⟨10, 1, bytes "host", .hostConf 0 0 16 4 4 true⟩
        ⟨10, 1, bytes "host", .hostConf 0 0 16 4 7 true⟩ m m' ↔
      ¬((⟨10, 1, bytes "host", .hostConf 0 0 16 4 4 true⟩ : Event) ≠
          ⟨10, 1, bytes "host", .hostConf 0 0 16 4 7 true⟩ ∧
        Event.shown ⟨10, 1, bytes "host", .hostConf 0 0 16 4 4 true⟩ =
          Event.shown ⟨10, 1, bytes "host", .hostConf 0 0 16 4 7 true⟩)) :=
  ⟨_, _, rfl, rfl, exportsOwnFields_toldApart_iff rfl rfl rfl trivial trivial⟩

/-- Two DMA operations with one identifier, at the addresses 4096 and 8192. -/
theorem not_exportsOwnFields_toldApart : ∃ m,
    attributesOf ⟨10, 1, bytes "nic", .nicDmaI 1 4096 64⟩ = some m ∧
    attributesOf ⟨10, 1, bytes "nic", .nicDmaI 1 8192 64⟩ = some m ∧
    ¬ExportsOwnFields ⟨10, 1, bytes "nic", .nicDmaI 1 4096 64⟩ m ∧
    ¬ToldApart ⟨10, 1, bytes "nic", .nicDmaI 1 4096 64⟩
      ⟨10, 1, bytes "nic", .nicDmaI 1 8192 64⟩ m m := by
  refine ⟨_, rfl, rfl, ?_, ?_⟩
  · intro hown
    exact absurd ((exportsOwnFields_iff (by rfl) (by trivial)).mp hown)
      (show ¬((4096 : UInt64) = 1) by decide)
  · intro htold
    exact (toldApart_iff (by rfl) (by rfl) (by rfl) (by trivial) (by trivial)).mp htold
      ⟨by decide, rfl⟩

end Agreement

end Columbo
