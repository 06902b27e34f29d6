import Columbo.EventText
import Columbo.AddressText
import Columbo.LineReading

/-!
# The printed history of an event

The number base of a stream stays in force until it is changed. Some classes leave it in
base sixteen, some set it back to ten and some leave it alone. A few numbers are written
without setting it first, so a line depends on the last event before it that set the base.
-/
namespace Columbo

namespace EventKind

/-- The base that the class of an event leaves the stream in, where it sets one. -/
def setsBase : EventKind → Option BaseField
  | hostInstr .. | hostCall .. | hostMmioR .. | hostMmioW .. | hostDmaR .. | hostDmaW ..
  | hostConf .. | hostPciRW .. | setIX .. | nicDmaI .. | nicDmaEx .. | nicDmaEn ..
  | nicDmaCR .. | nicDmaCW .. | nicMmioR .. | nicMmioW .. => some .hex
  | networkEnqueue net | networkDequeue net | networkDrop net =>
    -- A MAC address is written in base sixteen and followed by `std::dec`.
    net.ethernetHeader.map fun _ => .dec
  | _ => none

/-- The number that the class of an event writes in the base it finds. -/
def inheritedNumber : EventKind → Option ℕ
  | nicTx len | nicRx _ len => some len.toNat
  | networkEnqueue net | networkDequeue net | networkDrop net =>
    if net.ethernetHeader.isSome then none else net.ipHeader.map fun header => header.length.toNat
  | _ => none

end EventKind

/-- The base that a list of events leaves a fresh stream in. -/
def baseAfter (es : List Event) : BaseField :=
  es.foldl (fun base e => e.kind.setsBase.getD base) .dec

/-- The line that the printer writes for an event behind a list of events. -/
def lineAfter (es : List Event) (e : Event) : Bytes :=
  (e.print (printAll es .fresh)).text.drop (printAll es .fresh).text.length

def inheritedText (base : BaseField) (number : Option ℕ) : Bytes :=
  number.elim [] (numText base.toNat)

theorem digitRun_numText {b n : ℕ} {s : Bytes} (hb : 1 < b) (hb16 : b ≤ 16) (hs : StopsAlnum s) :
    digitRun 16 (numText b n ++ s) = Numeral.numeral b n := by
  have hlt : ∀ d ∈ Numeral.numeral b n, d < 16 :=
    fun d hd => (Numeral.digit_lt hb hd).trans_le hb16
  rw [numText, digitRun_map_append hlt hs]
  exact List.takeWhile_eq_self_iff.mpr fun d hd => decide_eq_true (hlt d hd)

/-- Numbers of more than one digit look different in the two bases, whatever follows. -/
theorem numText_append_eq_iff {n : ℕ} {s s' : Bytes} (hs : StopsAlnum s) (hs' : StopsAlnum s') :
    numText 10 n ++ s = numText 16 n ++ s' ↔ n < 10 ∧ s = s' := by
  constructor
  · intro heq
    have hrun : Numeral.numeral 10 n = Numeral.numeral 16 n := by
      rw [← digitRun_numText (by decide) (by decide) hs, heq,
        digitRun_numText (by decide) (by decide) hs']
    constructor
    · by_contra hge
      have hlt := Numeral.lt_value_numeral (b := 10) (c := 16) (n := n) (by decide) (by decide)
        (by omega)
      rw [hrun, Numeral.value_numeral] at hlt
      exact absurd hlt (Nat.lt_irrefl n)
    · rwa [numText, numText, hrun, List.append_cancel_left_eq] at heq
  · rintro ⟨hlt, rfl⟩
    rw [numText, numText, Numeral.numeral_of_lt hlt,
      Numeral.numeral_of_lt (hlt.trans (by decide))]

theorem inheritedText_append_eq_iff {number : Option ℕ} {s : Bytes} (hs : StopsAlnum s) :
    inheritedText .dec number ++ s = inheritedText .hex number ++ s ↔ ∀ n ∈ number, n < 10 := by
  cases number with
  | none => simp [inheritedText]
  | some n =>
    have hiff := numText_append_eq_iff (n := n) hs hs
    simpa [inheritedText, BaseField.toNat] using hiff

section Layout

variable {a b c : BaseField} {base : Option BaseField} {p q : OStream → OStream}
  {number : Option ℕ} {t : Bytes}

/-- A printer whose text does not depend on the base it finds. -/
def Settled (p : OStream → OStream) (base : Option BaseField) : Prop :=
  ∃ t, ∀ a, Prints p a t (base.getD a)

/-- A printer that writes at most one number in the base it finds, and no letter or digit
right behind it. -/
def Inherits (p : OStream → OStream) (number : Option ℕ) (base : Option BaseField) : Prop :=
  ∃ t u, StopsAlnum u ∧ ∀ a, Prints p a (t ++ (inheritedText a number ++ u)) (base.getD a)

theorem Settled.id : Settled id none := ⟨[], fun _ u => by simp⟩

theorem Settled.text (name : String) : Settled (fun out => out.str name) none :=
  ⟨_, fun _ => .str name⟩

theorem Settled.put (t : Bytes) : Settled (fun out => out.put t) none := ⟨_, fun _ => .put t⟩

theorem Settled.putField (name : String) (t : Bytes) :
    Settled (fun out => (out.str name).put t) none :=
  ⟨_, fun _ => .putField name t⟩

theorem Settled.hexField (name : String) (n : ℕ) :
    Settled (fun out => (out.str name).hex.uint n) (some .hex) :=
  ⟨_, fun _ => .hexField name n⟩

theorem Settled.ipField (name : String) (ip : Ipv4) :
    Settled (fun out => ip.display (out.str name)) none :=
  ⟨_, fun _ => .field name ip.prints_display⟩

/-- A printer in front that leaves the base alone. -/
theorem Settled.before (hp : Settled p none) (hq : Settled q base) :
    Settled (fun out => q (p out)) base := by
  obtain ⟨t, ht⟩ := hp
  obtain ⟨t', ht'⟩ := hq
  exact ⟨t ++ t', fun a => (ht a).comp (ht' a)⟩

/-- Behind a printer that sets the base it is enough to know what happens in that base. -/
theorem Settled.andThen (hp : Settled p (some b)) (hq : Prints q b t c) :
    Settled (fun out => q (p out)) (some c) := by
  obtain ⟨t', ht'⟩ := hp
  exact ⟨t' ++ t, fun a => (ht' a).comp hq⟩

theorem Settled.inherits (hp : Settled p base) : Inherits p none base := by
  obtain ⟨t, ht⟩ := hp
  refine ⟨t, [], stopsAlnum_nil, fun a => ?_⟩
  simpa [inheritedText] using ht a

theorem Settled.beforeInherits (hp : Settled p none) (hq : Inherits q number base) :
    Inherits (fun out => q (p out)) number base := by
  obtain ⟨t, ht⟩ := hp
  obtain ⟨t', u, hu, hq⟩ := hq
  refine ⟨t ++ t', u, hu, fun a => ?_⟩
  rw [List.append_assoc]
  exact (ht a).comp (hq a)

theorem Inherits.field (name : String) (n : ℕ) (hq : ∀ a, Prints q a t a) (ht : StopsAlnum t) :
    Inherits (fun out => q ((out.str name).uint n)) (some n) none :=
  ⟨bytes name, t, ht, fun a => (Prints.str name).comp ((Prints.uint n).comp (hq a))⟩

/-- An `int` in base sixteen is written as the unsigned number with the same bits. -/
theorem Prints.intHex (i : Int32) :
    Prints (fun out => out.int i) .hex (numText 16 i.toUInt32.toNat) .hex :=
  Prints.put (numText 16 i.toUInt32.toNat)

theorem settled_displayHostAddrSizeOp (id addr size : UInt64) :
    Settled (displayHostAddrSizeOp id addr size) (some .hex) :=
  ⟨_, fun _ => prints_displayHostAddrSizeOp id addr size⟩

theorem settled_displayHostMmioOp (id addr size : UInt64) (bar : Int32) (offset : UInt64) :
    Settled (displayHostMmioOp id addr size bar offset) (some .hex) :=
  (settled_displayHostAddrSizeOp id addr size).andThen
    ((Prints.field ", bar=" (Prints.intHex bar)).comp (.hexField ", offset=" offset.toNat))

theorem settled_displayHostMmioW (id addr size : UInt64) (bar : Int32) (offset : UInt64)
    (posted : Bool) : Settled (displayHostMmioW id addr size bar offset posted) (some .hex) := by
  unfold displayHostMmioW
  exact (settled_displayHostMmioOp id addr size bar offset).andThen
    (.putField ", posted=" (boolToString posted))

/-- A separator in front of a field is no part of the number before it. -/
theorem stopsAlnum_fieldText {name : String} {d : UInt8} (hname : (bytes name).head? = some d)
    (hd : isAlnum d = false) (value rest : Bytes) : StopsAlnum (fieldText name value ++ rest) := by
  intro e he
  rw [fieldText, List.append_assoc, List.head?_append, hname] at he
  obtain rfl := Option.some.inj he
  exact hd

theorem inherits_displayNicTrx (len : UInt64) (isRead : Bool) :
    Inherits (displayNicTrx len isRead) (some len.toNat) none := by
  unfold displayNicTrx
  refine .field ", len=" len.toNat (fun _ => .putField ", is_read=" _) ?_
  rw [← List.append_nil (fieldText _ _)]
  exact stopsAlnum_fieldText (d := byte ',') rfl (by decide) _ _

theorem inherits_displayNicRx (port : Int32) (len : UInt64) :
    Inherits (displayNicRx port len) (some len.toNat) none := by
  unfold displayNicRx displayNicTrx
  refine .field ", len=" len.toNat
    (fun _ => (Prints.putField ", is_read=" _).comp (.putField ", port=" _)) ?_
  exact stopsAlnum_fieldText (d := byte ',') rfl (by decide) _ _

theorem inherits_ipv4Header (header : Ipv4Header) :
    Inherits (fun out => header.display (out.str ", ")) (some header.length.toNat) none := by
  unfold Ipv4Header.display
  refine (Settled.text ", ").beforeInherits ((Settled.text "Ipv4Header(").beforeInherits
    (.field "length: " header.length.toNat
      (fun _ => (Prints.field " " header.srcIp.prints_display).comp
        ((Prints.field " > " header.dstIp.prints_display).comp (.str ")"))) ?_))
  exact stopsAlnum_fieldText (d := byte ' ') rfl (by decide) _ _

theorem settled_ethernetHeader (header : EthernetHeader) :
    Settled (fun out => header.display (out.str ", ")) (some .dec) := by
  unfold EthernetHeader.display
  exact (Settled.text ", ").before ((Settled.text "EthernetHeader(").before
    ((Settled.hexField "length/type=0x" header.lengthType.toNat).andThen
      ((Prints.field ", source=" header.srcMac.prints_display).comp
        ((Prints.field ", destination=" header.dstMac.prints_display).comp (.str ")")))))

theorem settled_arpHeader (header : Option ArpHeader) :
    Settled (displayHeader ArpHeader.display header) none := by
  cases header with
  | none => exact Settled.id
  | some header =>
    unfold displayHeader ArpHeader.display
    exact (Settled.text ", ").before ((Settled.text "ns3::ArpHeader(").before
      ((Settled.put _).before ((Settled.ipField " source ipv4: " header.srcIp).before
        ((Settled.ipField " dest ipv4: " header.dstIp).before (.text ")")))))

/-- Behind a MAC address the stream is in base ten, and the length of a packet is written so. -/
theorem inherits_headers (net : NetworkEvent) :
    Inherits (fun out => displayHeader Ipv4Header.display net.ipHeader
        (displayHeader ArpHeader.display net.arpHeader
          (displayHeader EthernetHeader.display net.ethernetHeader out)))
      (if net.ethernetHeader.isSome then none else net.ipHeader.map fun header => header.length.toNat)
      (net.ethernetHeader.map fun _ => .dec) := by
  cases net.ethernetHeader with
  | none =>
    refine (settled_arpHeader net.arpHeader).beforeInherits ?_
    cases net.ipHeader with
    | none => exact Settled.id.inherits
    | some header => exact inherits_ipv4Header header
  | some ethernet =>
    obtain ⟨arpText, harp⟩ := settled_arpHeader net.arpHeader
    have hlead := (settled_ethernetHeader ethernet).andThen (harp .dec)
    cases net.ipHeader with
    | none => exact hlead.inherits
    | some header =>
      obtain ⟨t, u, -, hip⟩ := inherits_ipv4Header header
      exact (hlead.andThen (hip .dec)).inherits

theorem NetworkEvent.inherits_display (net : NetworkEvent) :
    Inherits net.display
      (if net.ethernetHeader.isSome then none else net.ipHeader.map fun header => header.length.toNat)
      (net.ethernetHeader.map fun _ => .dec) := by
  unfold NetworkEvent.display
  exact (Settled.putField ", node=" _).beforeInherits ((Settled.putField ", device=" _).beforeInherits
    ((Settled.putField ", device_name=" _).beforeInherits
      ((Settled.putField ", packet-uid=" _).beforeInherits
        ((Settled.putField ", interesting=" _).beforeInherits
          ((Settled.putField ", payload_size=" _).beforeInherits
            ((Settled.putField ", boundary_type=" _).beforeInherits (inherits_headers net)))))))

/-- What each class writes behind the fields that all events share. -/
theorem EventKind.inherits_display (k : EventKind) :
    Inherits k.display k.inheritedNumber k.setsBase := by
  cases k with
  | simSendSync | simProcInEvent | hostMmioImRespPoW | hostClearInt | hostPostInt =>
    exact Settled.id.inherits
  | hostInstr pc => exact (Settled.hexField _ _).inherits
  | hostCall pc func comp =>
    exact ((Settled.hexField ", pc=" pc.toNat).andThen
      ((Prints.putField ", func=" _).comp (.putField ", comp=" _))).inherits
  | hostMmioCR | hostMmioCW | hostDmaC | hostMsiX | nicMsix =>
    exact (Settled.putField _ _).inherits
  | hostMmioR id addr size bar offset =>
    exact (settled_displayHostMmioOp id addr size bar offset).inherits
  | hostMmioW id addr size bar offset posted =>
    exact (settled_displayHostMmioW id addr size bar offset posted).inherits
  | hostDmaR | hostDmaW => exact (settled_displayHostAddrSizeOp _ _ _).inherits
  | hostConf dev func reg bytes data =>
    exact ((Settled.hexField ", dev=" dev.toNat).andThen ((Prints.hexField ", func=" _).comp
      ((Prints.hexField ", reg=" _).comp ((Prints.uintField ", bytes=" _).comp
        (.hexField ", data=" _))))).inherits
  | hostPciRW offset size =>
    exact ((Settled.hexField ", offset=" offset.toNat).andThen (.uintField ", size=" _)).inherits
  | setIX => exact (Settled.hexField _ _).inherits
  | nicDmaI | nicDmaEx | nicDmaEn | nicDmaCR | nicDmaCW =>
    exact (settled_displayHostAddrSizeOp _ _ _).inherits
  | nicMmioR off len val => exact Settled.inherits ⟨_, fun _ => prints_displayNicMmio off len val⟩
  | nicMmioW off len val posted =>
    exact Settled.inherits ⟨_, fun _ => prints_displayNicMmioW off len val posted⟩
  | nicTx len => exact inherits_displayNicTrx len false
  | nicRx port len => exact inherits_displayNicRx port len
  | networkEnqueue net | networkDequeue net | networkDrop net => exact net.inherits_display

end Layout

/-- A line: the identifier of the parser is always written in the base that is in force. -/
theorem Event.print_layout (e : Event) : ∃ t t' u, (∀ rest, StopsAlnum (t' ++ rest)) ∧
    StopsAlnum u ∧ ∀ a, Prints e.print a (t ++ (numText a.toNat e.parserIdentifier.toNat ++ (t' ++
      (inheritedText a e.kind.inheritedNumber ++ u)))) (e.kind.setsBase.getD a) := by
  obtain ⟨t, u, hu, hbody⟩ := e.kind.inherits_display
  refine ⟨e.kind.getName ++ bytes ": source_id=", fieldText ", source_name=" e.parserName ++
    (fieldText ", timestamp=" (toString10 e.timestamp.toNat) ++ t), u ++ [kLineEnd], ?_, ?_, ?_⟩
  · intro rest
    rw [List.append_assoc]
    exact stopsAlnum_fieldText (d := byte ',') rfl (by decide) _ _
  · exact StopsAlnum.append_lineEnd hu
  · intro a
    have hprint := (Prints.put e.kind.getName).comp
      ((Prints.uintField (a := a) ": source_id=" e.parserIdentifier.toNat).comp
        ((Prints.putField ", source_name=" e.parserName).comp
          ((Prints.putField ", timestamp=" (toString10 e.timestamp.toNat)).comp
            ((hbody a).comp (Prints.put [kLineEnd])))))
    simp only [fieldText, List.append_assoc] at hprint ⊢
    exact hprint

theorem prints_printAll_base (es : List Event) (a : BaseField) :
    ∃ t, Prints (printAll es) a t (es.foldl (fun base e => e.kind.setsBase.getD base) a) := by
  induction es generalizing a with
  | nil => exact ⟨[], fun u => by simp [printAll]⟩
  | cons e es ih =>
    obtain ⟨t, t', u, -, -, hprint⟩ := e.print_layout
    obtain ⟨rest, hrest⟩ := ih (e.kind.setsBase.getD a)
    exact ⟨_, (hprint a).comp hrest⟩

/-- Only the base at the end of the history matters for a line. -/
theorem lineAfter_eq (es : List Event) (e : Event) {t : Bytes} {c : BaseField}
    (h : Prints e.print (baseAfter es) t c) : lineAfter es e = t := by
  obtain ⟨text, hall⟩ := prints_printAll_base es .dec
  have hstream : printAll es .fresh = ⟨text, baseAfter es, byte ' ', 0⟩ := hall []
  rw [lineAfter, hstream, h text, List.drop_left]

/-- Two histories give the same line, if and only if they leave the stream in the same base or
the numbers that depend on the base have one digit. -/
theorem lineAfter_eq_iff (e : Event) (es₁ es₂ : List Event) :
    lineAfter es₁ e = lineAfter es₂ e ↔ baseAfter es₁ = baseAfter es₂ ∨
      e.parserIdentifier.toNat < 10 ∧ ∀ n ∈ e.kind.inheritedNumber, n < 10 := by
  obtain ⟨t, t', u, ht', hu, hprint⟩ := e.print_layout
  have htwo : (t ++ (numText 10 e.parserIdentifier.toNat ++ (t' ++
        (inheritedText .dec e.kind.inheritedNumber ++ u))) =
      t ++ (numText 16 e.parserIdentifier.toNat ++ (t' ++
        (inheritedText .hex e.kind.inheritedNumber ++ u)))) ↔
      e.parserIdentifier.toNat < 10 ∧ ∀ n ∈ e.kind.inheritedNumber, n < 10 := by
    rw [List.append_cancel_left_eq, numText_append_eq_iff (ht' _) (ht' _),
      List.append_cancel_left_eq, inheritedText_append_eq_iff hu]
  rw [lineAfter_eq es₁ e (hprint _), lineAfter_eq es₂ e (hprint _)]
  cases baseAfter es₁ <;> cases baseAfter es₂
  · simp
  · rw [or_iff_right (by decide)]
    exact htwo
  · rw [or_iff_right (by decide)]
    exact eq_comm.trans htwo
  · simp

/-- The line of an event of parser 16 before and after an interrupt was set. -/
theorem not_lineAfter_eq : ¬ ∀ (e : Event) (es₁ es₂ : List Event),
    lineAfter es₁ e = lineAfter es₂ e := by
  intro hall
  have hline := hall ⟨5, 16, bytes "nic", .hostPostInt⟩ [] [⟨4, 16, bytes "nic", .setIX 1⟩]
  exact absurd hline (by decide)

end Columbo
