import Columbo.AddressText
import Columbo.Lines

/-!
# Round trip of network events

A list of network events that one printer writes to a fresh stream is read back
event by event. The headers are found by searching the rest of the line. A
present header is found because nothing in front of it contains its first byte,
and a missing one is not found because some byte of its name does not occur in
the rest of the line.
-/
namespace Columbo

section HeaderText

/-- A header without its closing bracket, which its parser leaves unread. -/
def EthernetHeader.text (header : EthernetHeader) : Bytes :=
  bytes ", EthernetHeader" ++ (bytes "(length/type=0x" ++ (numText 16 header.lengthType.toNat ++
    (bytes ", source=" ++ (macText header.srcMac ++
      (bytes ", destination=" ++ macText header.dstMac)))))

def ArpHeader.text (header : ArpHeader) : Bytes :=
  bytes ", ns3::ArpHeader" ++ (bytes "(" ++
    ((if header.isRequest then bytes "request" else bytes "reply") ++
      (bytes " source ipv4: " ++ (header.srcIp.text ++
        (bytes " dest ipv4: " ++ header.dstIp.text)))))

def Ipv4Header.text (header : Ipv4Header) : Bytes :=
  bytes ", Ipv4Header" ++ (bytes "(length: " ++ (numText 10 header.length.toNat ++
    (bytes " " ++ (header.srcIp.text ++ (bytes " " ++ (bytes ">" ++ (bytes " " ++
      header.dstIp.text)))))))

/-- A header with its closing bracket, where it is present. -/
def headerText {α : Type} (text : α → Bytes) : Option α → Bytes
  | some x => text x ++ bytes ")"
  | none => []

theorem prints_displayHeader {α : Type} {display : α → OStream → OStream} {text : α → Bytes}
    (header : Option α)
    (h : ∀ x, Prints (fun out => display x (out.str ", ")) .dec (text x ++ bytes ")") .dec) :
    Prints (displayHeader display header) .dec (headerText text header) .dec := by
  cases header with
  | some x => exact h x
  | none =>
    intro u
    simp [displayHeader, headerText]

theorem EthernetHeader.prints_display (header : EthernetHeader) :
    Prints (fun out => header.display (out.str ", ")) .dec (header.text ++ bytes ")") .dec := by
  have hprints := (Prints.str (a := .dec) ", ").comp ((Prints.str "EthernetHeader(").comp
    ((Prints.hexField "length/type=0x" header.lengthType.toNat).comp
      ((Prints.field ", source=" header.srcMac.prints_display).comp
        ((Prints.field ", destination=" header.dstMac.prints_display).comp (.str ")")))))
  have htext : bytes ", " ++ (bytes "EthernetHeader(" ++ (fieldText "length/type=0x"
      (numText 16 header.lengthType.toNat) ++ (fieldText ", source=" (macText header.srcMac) ++
        (fieldText ", destination=" (macText header.dstMac) ++ bytes ")")))) =
      header.text ++ bytes ")" := by
    simp only [text, fieldText, List.append_assoc]
    rfl
  rw [htext] at hprints
  exact hprints

theorem ArpHeader.prints_display (header : ArpHeader) :
    Prints (fun out => header.display (out.str ", ")) .dec (header.text ++ bytes ")") .dec := by
  have hprints := (Prints.str (a := .dec) ", ").comp ((Prints.str "ns3::ArpHeader(").comp
    ((Prints.put (if header.isRequest then bytes "request" else bytes "reply")).comp
      ((Prints.field " source ipv4: " header.srcIp.prints_display).comp
        ((Prints.field " dest ipv4: " header.dstIp.prints_display).comp (.str ")")))))
  have htext : bytes ", " ++ (bytes "ns3::ArpHeader(" ++
      ((if header.isRequest then bytes "request" else bytes "reply") ++
        (fieldText " source ipv4: " header.srcIp.text ++
          (fieldText " dest ipv4: " header.dstIp.text ++ bytes ")")))) =
      header.text ++ bytes ")" := by
    simp only [text, fieldText, List.append_assoc]
    rfl
  rw [htext] at hprints
  exact hprints

theorem Ipv4Header.prints_display (header : Ipv4Header) :
    Prints (fun out => header.display (out.str ", ")) .dec (header.text ++ bytes ")") .dec := by
  have hprints := (Prints.str (a := .dec) ", ").comp ((Prints.str "Ipv4Header(").comp
    ((Prints.uintField "length: " header.length.toNat).comp
      ((Prints.field " " header.srcIp.prints_display).comp
        ((Prints.field " > " header.dstIp.prints_display).comp (.str ")")))))
  have htext : bytes ", " ++ (bytes "Ipv4Header(" ++
      (fieldText "length: " (numText BaseField.dec.toNat header.length.toNat) ++
        (fieldText " " header.srcIp.text ++ (fieldText " > " header.dstIp.text ++ bytes ")")))) =
      header.text ++ bytes ")" := by
    simp only [text, fieldText, List.append_assoc]
    rfl
  rw [htext] at hprints
  exact hprints

end HeaderText

/-- What `NetworkEvent::Display` writes behind the shared fields. -/
def NetworkEvent.fieldsText (net : NetworkEvent) : Bytes :=
  fieldText ", node=" (toString10 net.node.toNatClampNeg) ++
    (fieldText ", device=" (toString10 net.device.toNatClampNeg) ++
      (fieldText ", device_name=" net.deviceType.text ++
        (fieldText ", packet-uid=" (toString10 net.packetUid.toNat) ++
          (fieldText ", interesting=" (boolToString net.interestingFlag) ++
            (fieldText ", payload_size=" (toString10 net.payloadSize.toNat) ++
              fieldText ", boundary_type=" net.boundaryType.text)))))

def NetworkEvent.headersText (net : NetworkEvent) : Bytes :=
  headerText EthernetHeader.text net.ethernetHeader ++
    (headerText ArpHeader.text net.arpHeader ++ headerText Ipv4Header.text net.ipHeader)

theorem NetworkEvent.prints_display {net : NetworkEvent} (hnode : 0 ≤ net.node)
    (hdevice : 0 ≤ net.device) :
    Prints net.display .dec (net.fieldsText ++ net.headersText) .dec := by
  have hfields := (Prints.putField (a := .dec) ", node=" (toStringInt net.node)).comp
    ((Prints.putField ", device=" (toStringInt net.device)).comp
      ((Prints.putField ", device_name=" net.deviceType.text).comp
        ((Prints.putField ", packet-uid=" (toString10 net.packetUid.toNat)).comp
          ((Prints.putField ", interesting=" (boolToString net.interestingFlag)).comp
            ((Prints.putField ", payload_size=" (toString10 net.payloadSize.toNat)).comp
              (Prints.putField ", boundary_type=" net.boundaryType.text))))))
  have hheaders := (prints_displayHeader net.ethernetHeader EthernetHeader.prints_display).comp
    ((prints_displayHeader net.arpHeader ArpHeader.prints_display).comp
      (prints_displayHeader net.ipHeader Ipv4Header.prints_display))
  rw [fieldsText, headersText, ← toStringInt_of_nonneg hnode, ← toStringInt_of_nonneg hdevice]
  have hprints := hfields.comp hheaders
  exact hprints

section ReadHeaders

variable {mem : Bytes}

theorem stopsAlnum_bytes {s : String} (h : StopsAlnum (bytes s)) (hne : bytes s ≠ []) (t : Bytes) :
    StopsAlnum (bytes s ++ t) := by
  obtain ⟨c, cs, hc⟩ := List.exists_cons_of_ne_nil hne
  rw [hc] at h ⊢
  simpa using h

theorem reads_parseEthernetHeader {header : EthernetHeader} {lead : Bytes}
    (hlead : byte 'E' ∉ lead) (hlen : header.lengthType.toNat < ULONG_MAX) :
    Reads (AtText mem) parseEthernetHeader (lead ++ header.text) header StopsAlnum := by
  have htext : lead ++ header.text = (lead ++ bytes ", " ++ bytes "EthernetHeader") ++
      ((bytes "(" ++ bytes "length/type=0x") ++ (numText 16 header.lengthType.toNat ++
        ((bytes ", " ++ bytes "source=") ++ (macText header.srcMac ++
          ((bytes ", " ++ bytes "destination=") ++ macText header.dstMac))))) := by
    simp only [EthernetHeader.text, List.append_assoc]
    rfl
  rw [htext]
  refine (reads_consumeAndTrimTillString (c := byte 'E') rfl ?_).seq ?_
  · exact List.not_mem_append hlead (by decide)
  refine (reads_consumeAndTrimTillString (c := byte 'l') rfl (by decide)).seq ?_
  refine (reads_parseUintTrim (.inr rfl) _ hlen).bind ?_ fun rest _ => by
    simp only [List.append_assoc]
    exact stopsAlnum_bytes (by simp [bytes]; decide) (by decide) _
  refine (reads_consumeAndTrimTillString (c := byte 's') rfl (by decide)).seq ?_
  refine (reads_parseMacAddress _).bind ?_ fun rest _ => by
    simp only [List.append_assoc]
    exact stopsAlnum_bytes (by simp [bytes]; decide) (by decide) _
  refine (reads_consumeAndTrimTillString (c := byte 'd') rfl (by decide)).seq ?_
  exact (reads_parseMacAddress header.dstMac).map _

theorem not_mem_arpText {header : Option ArpHeader} {c : UInt8} (hnum : isNum c = false)
    (hc : c ∉ bytes ", ns3::ArpHeader(request reply source ipv4: dest .)") :
    c ∉ headerText ArpHeader.text header := by
  have hsub : ∀ t : Bytes,
      t ⊆ bytes ", ns3::ArpHeader(request reply source ipv4: dest .)" → c ∉ t :=
    fun t ht hct => hc (ht hct)
  cases header with
  | none => simp [headerText]
  | some header =>
    have hip : ∀ a : Ipv4, c ∉ a.text := fun a => not_mem_ipText hnum (hsub _ (by decide))
    have hkind : c ∉ (if header.isRequest then bytes "request" else bytes "reply") := by
      split_ifs
      · exact hsub _ (by decide)
      · exact hsub _ (by decide)
    simp only [headerText, ArpHeader.text, List.mem_append, not_or]
    exact ⟨⟨hsub _ (by decide), hsub _ (by decide), hkind, hsub _ (by decide), hip _,
      hsub _ (by decide), hip _⟩, hsub _ (by decide)⟩

theorem not_mem_ipv4Text {header : Option Ipv4Header} {c : UInt8} (hnum : isNum c = false)
    (hc : c ∉ bytes ", Ipv4Header(length: > .)") : c ∉ headerText Ipv4Header.text header := by
  have hsub : ∀ t : Bytes, t ⊆ bytes ", Ipv4Header(length: > .)" → c ∉ t :=
    fun t ht hct => hc (ht hct)
  cases header with
  | none => simp [headerText]
  | some header =>
    have hip : ∀ a : Ipv4, c ∉ a.text := fun a => not_mem_ipText hnum (hsub _ (by decide))
    have hlen : c ∉ numText 10 header.length.toNat := fun h => by
      simp [isNum_of_mem_numText h] at hnum
    simp only [headerText, Ipv4Header.text, List.mem_append, not_or]
    exact ⟨⟨hsub _ (by decide), hsub _ (by decide), hlen, hsub _ (by decide), hip _,
      hsub _ (by decide), hsub _ (by decide), hsub _ (by decide), hip _⟩, hsub _ (by decide)⟩

/-- The choice between the two kinds of ARP header: `request` is searched for first. -/
theorem reads_arpKind (isRequest : Bool) :
    Reads (AtText mem)
      (Scan.orElse (do consumeAndTrimTillString (bytes "request"); pure true)
        (do consumeAndTrimTillString (bytes "reply"); pure false))
      (bytes "(" ++ if isRequest then bytes "request" else bytes "reply") isRequest
      fun rest => byte 'q' ∉ rest := by
  cases isRequest with
  | true =>
    refine Reads.orElse ?_
    exact ((reads_consumeAndTrimTillString (c := byte 'r') rfl (by decide)).map
      fun _ => true).mono fun _ _ => trivial
  | false =>
    refine Reads.orElse_right (fun rest hrest => ?_) ?_
    · refine (refuses_consumeAndTrimTillString (c := byte 'q') (by decide) ?_).bind
      exact List.not_mem_append (by decide) hrest
    · exact ((reads_consumeAndTrimTillString (c := byte 'r') rfl (by decide)).map
        fun _ => false).mono fun _ _ => trivial

theorem reads_parseArpHeader {header : ArpHeader} {lead : Bytes} (hlead : byte 'n' ∉ lead) :
    Reads (AtText mem) parseArpHeader (lead ++ header.text) header
      fun rest => StopsAlnum rest ∧ byte 'q' ∉ rest := by
  have htext : lead ++ header.text = (lead ++ bytes ", " ++ bytes "ns3::ArpHeader") ++
      ((bytes "(" ++ if header.isRequest then bytes "request" else bytes "reply") ++
        (([] ++ bytes " source ipv4: ") ++ (header.srcIp.text ++
          (([] ++ bytes " dest ipv4: ") ++ header.dstIp.text)))) := by
    simp only [ArpHeader.text, List.append_assoc, List.nil_append]
    rfl
  rw [htext]
  refine (reads_consumeAndTrimTillString (c := byte 'n') rfl ?_).seq ?_
  · exact List.not_mem_append hlead (by decide)
  have hq : ∀ a : Ipv4, byte 'q' ∉ a.text := fun a => not_mem_ipText (by decide) (by decide)
  refine (reads_arpKind header.isRequest).bind ?_ fun rest hrest => ?_
  · refine (reads_consumeAndTrimTillString (c := byte ' ') rfl (by decide)).seq ?_
    refine (reads_parseIpAddress header.srcIp).bind ?_ fun rest _ => by
      simp only [List.nil_append, List.append_assoc]
      exact stopsAlnum_bytes (by simp [bytes]; decide) (by decide) _
    refine (reads_consumeAndTrimTillString (c := byte ' ') rfl (by decide)).seq ?_
    exact ((reads_parseIpAddress header.dstIp).map _).mono fun _ h => h.1
  · simp only [List.nil_append, List.mem_append, not_or]
    exact ⟨⟨by decide, hq _, by decide, hq _⟩, hrest.2⟩

theorem reads_parseIpHeader {header : Ipv4Header} {lead : Bytes} (hlead : byte 'I' ∉ lead)
    (hlen : header.length.toNat < ULONG_MAX) :
    Reads (AtText mem) parseIpHeader (lead ++ header.text) header StopsAlnum := by
  have htext : lead ++ header.text = (lead ++ bytes ", " ++ bytes "Ipv4Header") ++
      ((bytes "(" ++ bytes "length: ") ++ (numText 10 header.length.toNat ++
        (bytes " " ++ (header.srcIp.text ++ (bytes " " ++ (bytes ">" ++ (bytes " " ++
          header.dstIp.text))))))) := by
    simp only [Ipv4Header.text, List.append_assoc]
    rfl
  have hblank : ∀ c ∈ bytes " ", isSpace c = true := List.all_eq_true.mp (by decide)
  have hhead : ∀ (a : Ipv4) (rest : Bytes), StopsAt isSpace (a.text ++ rest) := by
    intro a rest
    obtain ⟨c, cs, hc⟩ := List.exists_cons_of_ne_nil (numText_ne_nil 10 (a.octet 0))
    have hmem : c ∈ numText 10 (a.octet 0) := by simp [hc]
    simp only [Ipv4.text, toString10, hc, List.cons_append, stopsAt_cons]
    exact isSpace_of_isAlnum (isAlnum_of_isNum (isNum_of_mem_numText hmem))
  rw [htext]
  refine (reads_consumeAndTrimTillString (c := byte 'I') rfl ?_).seq ?_
  · exact List.not_mem_append hlead (by decide)
  refine (reads_consumeAndTrimTillString (c := byte 'l') rfl (by decide)).seq ?_
  refine (reads_parseUintTrim (.inl rfl) _ hlen).bind ?_ fun rest _ => by
    simp only [List.append_assoc]
    exact stopsAlnum_bytes (by simp [bytes]; decide) (by decide) _
  refine (reads_trimL hblank).bind ?_ fun rest _ => by
    simp only [List.append_assoc]
    exact hhead _ _
  refine (reads_parseIpAddress header.srcIp).bind ?_ fun rest _ => by
    simp only [List.append_assoc]
    exact stopsAlnum_bytes (by simp [bytes]; decide) (by decide) _
  refine (reads_trimL hblank).bind ?_ fun rest _ => by
    rw [List.append_assoc]
    exact (stopsAt_cons _ _ _).mpr (by decide)
  refine (reads_consumeAndTrimChar (byte '>')).seq ?_
  refine (reads_trimL hblank).bind ?_ fun rest _ => hhead _ _
  exact (reads_parseIpAddress header.dstIp).map _

/-- What the search for a header has in front of it: the bracket that closes the
header found before, if there was one. -/
def HeaderLead (lead : Bytes) : Prop := lead = [] ∨ lead = bytes ")"

/-- The text behind a header that was tried is empty or starts with a comma. -/
theorem stopsAt_lead {lead rest : Bytes} (hlead : HeaderLead lead) (hrest : FieldEnd rest) :
    StopsAt isSpace (lead ++ rest) := by
  rcases hlead with rfl | rfl
  · exact hrest.stopsAt (by decide)
  · exact (stopsAt_cons _ _ _).mpr (by decide)

/-- Trying one header: a present one is found and leaves its bracket behind, a
missing one leaves the text as it is. -/
theorem tryParseHeader_spec {α : Type} {parse : LineScan α} {text : α → Bytes} {header : Option α}
    {ok : Bytes → Prop} {h : LineHandler} {lead rest : Bytes} (hlead : HeaderLead lead)
    (hcomma : FieldEnd (headerText text header ++ rest)) (hend : ok (bytes ")" ++ rest))
    (hread : ∀ x ∈ header, Reads (AtText mem) parse (lead ++ text x) x ok)
    (hrefuse : header = none → Refuses (AtText mem) parse (lead ++ rest))
    (hv : AtText mem h (lead ++ (headerText text header ++ rest))) :
    ∃ h' lead', HeaderLead lead' ∧ AtText mem h' (lead' ++ rest) ∧
      ∀ {β : Type} (f : Option α → LineScan β),
        (do trimL; let x ← tryParseHeader parse; f x : LineScan β) h = f header h' := by
  have htrim : Reads (AtText mem) trimL [] () (StopsAt isSpace) := reads_trimL (by simp)
  have hstop := stopsAt_lead hlead hcomma
  obtain ⟨h₁, htrim₁, hv₁⟩ := htrim h (lead ++ (headerText text header ++ rest)) hv hstop
  obtain ⟨h₂, htrim₂, hv₂⟩ := htrim h₁ (lead ++ (headerText text header ++ rest)) hv₁ hstop
  have hrun : ∀ h' x, parse.optional h₂ = (some x, h') → ∀ {β : Type} (f : Option α → LineScan β),
      (do trimL; let x ← tryParseHeader parse; f x : LineScan β) h = f x h' := by
    intro h' x hp β f
    have htry : tryParseHeader parse h₁ = (some x, h') := by
      rw [tryParseHeader, Scan.bind_of_some htrim₂, hp]
    rw [Scan.bind_of_some htrim₁, Scan.bind_of_some htry]
  cases header with
  | some x =>
    rw [headerText, List.append_assoc, ← List.append_assoc lead] at hv₂
    obtain ⟨h₃, hp, hv₃⟩ := (hread x rfl).optional h₂ _ hv₂ hend
    exact ⟨h₃, bytes ")", .inr rfl, hv₃, hrun h₃ _ hp⟩
  | none =>
    obtain ⟨h₃, hp, hv₃⟩ := hrefuse rfl h₂ hv₂
    exact ⟨h₃, lead, hlead, hv₃, hrun h₃ _ (by rw [Scan.optional, hp])⟩

/-- The numbers of the headers that are present. -/
structure NetworkEvent.HeadersInDomain (net : NetworkEvent) : Prop where
  eth : ∀ x ∈ net.ethernetHeader, x.lengthType.toNat < ULONG_MAX
  ip : ∀ x ∈ net.ipHeader, x.length.toNat < ULONG_MAX

theorem not_mem_lead {lead : Bytes} (hlead : HeaderLead lead) {c : UInt8} (hc : c ∉ bytes ")") :
    c ∉ lead := by
  rcases hlead with rfl | rfl
  · simp
  · exact hc

theorem fieldEnd_headerText {α : Type} {text : α → Bytes} (header : Option α) {rest : Bytes}
    (htext : ∀ x, (text x).head? = some (byte ',')) (hrest : FieldEnd rest) :
    FieldEnd (headerText text header ++ rest) := by
  cases header with
  | none => exact hrest
  | some x =>
    rw [headerText, List.append_assoc]
    exact fieldEnd_append (htext x) _

/-- Every combination of headers is read back. -/
theorem returns_parseHeaders {net : NetworkEvent} (hnet : net.HeadersInDomain) :
    Returns (AtText mem) parseHeaders net.headersText
      (net.ethernetHeader, net.arpHeader, net.ipHeader) := by
  intro h hv
  have hclose : ∀ rest, StopsAlnum (bytes ")" ++ rest) := fun rest =>
    (stopsAlnum_cons _ _).mpr (by decide)
  have hip : FieldEnd (headerText Ipv4Header.text net.ipHeader ++ []) :=
    fieldEnd_headerText _ (fun _ => rfl) fieldEnd_nil
  have harp : FieldEnd (headerText ArpHeader.text net.arpHeader ++
      headerText Ipv4Header.text net.ipHeader) :=
    fieldEnd_headerText _ (fun _ => rfl) (by simpa using hip)
  have hnoE : byte 'E' ∉ headerText ArpHeader.text net.arpHeader ++
      headerText Ipv4Header.text net.ipHeader :=
    List.not_mem_append (not_mem_arpText (by decide) (by decide))
      (not_mem_ipv4Text (by decide) (by decide))
  have hnoA : byte 'A' ∉ headerText Ipv4Header.text net.ipHeader :=
    not_mem_ipv4Text (by decide) (by decide)
  have hnoq : byte 'q' ∉ bytes ")" ++ headerText Ipv4Header.text net.ipHeader :=
    List.not_mem_append (by decide) (not_mem_ipv4Text (by decide) (by decide))
  obtain ⟨h₁, lead₁, hlead₁, hv₁, hrun₁⟩ := tryParseHeader_spec
    (.inl rfl) (fieldEnd_headerText _ (fun _ => rfl) harp) (hclose _)
    (fun x hx => reads_parseEthernetHeader (by simp) (hnet.eth x hx))
    (fun _ => (refuses_consumeAndTrimTillString (by decide) hnoE).bind) hv
  obtain ⟨h₂, lead₂, hlead₂, hv₂, hrun₂⟩ := tryParseHeader_spec
    hlead₁ harp ⟨hclose _, hnoq⟩
    (fun x _ => reads_parseArpHeader (not_mem_lead hlead₁ (by decide)))
    (fun _ => (refuses_consumeAndTrimTillString (c := byte 'A') (by decide)
      (List.not_mem_append (not_mem_lead hlead₁ (by decide)) hnoA)).bind) hv₁
  obtain ⟨h₃, lead₃, hlead₃, hv₃, hrun₃⟩ := tryParseHeader_spec
    hlead₂ hip (hclose _)
    (fun x hx => reads_parseIpHeader (not_mem_lead hlead₂ (by decide)) (hnet.ip x hx))
    (fun _ => (refuses_consumeAndTrimTillString (c := byte 'I') (by decide)
      (List.not_mem_append (not_mem_lead hlead₂ (by decide)) (by simp))).bind)
    (by simpa using hv₂)
  have hrun : parseHeaders h = (some (net.ethernetHeader, net.arpHeader, net.ipHeader), h₃) := by
    rw [parseHeaders, tryParseEthernetHeader, hrun₁, tryParseArpHeader, hrun₂, tryParseIpHeader,
      hrun₃]
    rfl
  rw [hrun]

end ReadHeaders

section ReadFields

variable {mem : Bytes}

/-- The values a network event may have. -/
structure NetworkEvent.InDomain (net : NetworkEvent) : Prop extends net.HeadersInDomain where
  node : 0 ≤ net.node
  device : 0 ≤ net.device
  uid : net.packetUid.toNat < ULONG_MAX
  payload : net.payloadSize.toNat < ULONG_MAX

theorem returns_parseNetworkEvent {net : NetworkEvent} (hnet : net.InDomain) :
    Returns (AtText mem) parseNetworkEvent (net.fieldsText ++ net.headersText) net := by
  have hdevice : deviceTypeOf net.deviceType.text = pure net.deviceType := by
    cases net.deviceType <;> rfl
  have hboundary : boundaryTypeOf net.boundaryType.text = pure net.boundaryType := by
    cases net.boundaryType <;> rfl
  have hname : net.deviceType.text ≠ [] ∧ ∀ c ∈ net.deviceType.text, isDeviceName c = true := by
    rw [← List.all_eq_true]
    cases net.deviceType <;> decide
  have htype : net.boundaryType.text ≠ [] ∧ ∀ c ∈ net.boundaryType.text, isAlnum c = true := by
    rw [← List.all_eq_true]
    cases net.boundaryType <;> decide
  have hheaders : FieldEnd net.headersText := by
    refine fieldEnd_headerText _ (fun _ => rfl) (fieldEnd_headerText _ (fun _ => rfl) ?_)
    have hend : FieldEnd (headerText Ipv4Header.text net.ipHeader ++ []) :=
      fieldEnd_headerText net.ipHeader (fun _ => rfl) fieldEnd_nil
    rwa [List.append_nil] at hend
  have huid : fieldText ", packet-uid=" (toString10 net.packetUid.toNat) =
      (bytes ", " ++ bytes "packet-uid=") ++ toString10 net.packetUid.toNat := rfl
  have hflag : fieldText ", interesting=" (boolToString net.interestingFlag) =
      (bytes ", " ++ bytes "interesting=") ++ boolToString net.interestingFlag := rfl
  rw [NetworkEvent.fieldsText, huid, hflag]
  simp only [List.append_assoc]
  refine (reads_intField (by decide) hnet.node).bind_returns ?_ (fieldEnd_append rfl _)
  refine (reads_intField (by decide) hnet.device).bind_returns ?_ (fieldEnd_append rfl _)
  refine (reads_textField (by decide) (by decide) hname.1 hname.2).bind_returns ?_
    (fieldEnd_append rfl _)
  rw [← List.append_assoc (bytes ", ")]
  refine (reads_consumeAndTrimTillString (c := byte 'p') rfl (by decide)).bind_returns ?_ trivial
  refine (reads_parseUintTrim (.inl rfl) _ hnet.uid).bind_returns ?_
    (stopsAlnum_bytes (by simp [bytes]; decide) (by decide) _)
  rw [← List.append_assoc (bytes ", ")]
  refine (reads_consumeAndTrimTillString (c := byte 'i') rfl (by decide)).bind_returns ?_ trivial
  refine (reads_parseBoolFromStringRepr net.interestingFlag).bind_returns ?_ trivial
  refine (reads_uintField (by decide) (.inl rfl) hnet.payload).bind_returns ?_
    (fieldEnd_append rfl _)
  refine (reads_textField (by decide) (by decide) htype.1 htype.2).bind_returns ?_ hheaders
  rw [hdevice, Scan.pure_bind, hboundary, Scan.pure_bind]
  exact (returns_parseHeaders hnet.toHeadersInDomain).bind fun _ => rfl

end ReadFields

/-- An event of a network simulator. -/
structure Event.NetworkInDomain (e : Event) (net : NetworkEvent) : Prop where
  head : e.HeadInDomain
  kind : e.kind = .networkEnqueue net ∨ e.kind = .networkDequeue net ∨ e.kind = .networkDrop net
  net : net.InDomain

theorem Event.NetworkInDomain.prints_display {e : Event} {net : NetworkEvent}
    (he : e.NetworkInDomain net) :
    Prints e.display .dec (e.headText ++ (net.fieldsText ++ net.headersText)) .dec := by
  have hbody := NetworkEvent.prints_display he.net.node he.net.device
  have hkind : e.kind.display = net.display := by
    rcases he.kind with h | h | h <;> rw [h] <;> rfl
  have hprints := e.prints_displayEvent.comp hbody
  rw [← hkind] at hprints
  exact hprints

theorem Event.NetworkInDomain.parse {e : Event} {net : NetworkEvent} (he : e.NetworkInDomain net)
    (mem : Bytes) :
    Returns (AtText mem) parseEvent (e.headText ++ (net.fieldsText ++ net.headersText)) e := by
  refine returns_parseEvent he.head (fieldEnd_append rfl _) ?_
  rw [EventKind.parseKind_getName]
  have hnet : Returns (AtText mem) _ _ _ := returns_parseNetworkEvent he.net
  rcases he.kind with h | h | h
  · rw [h]; exact hnet.bind fun _ => rfl
  · rw [h]; exact hnet.bind fun _ => rfl
  · rw [h]; exact hnet.bind fun _ => rfl

section LineEnds

theorem lineEnd_not_mem_numText {b n : ℕ} (hb : 1 < b) (hb16 : b ≤ 16) :
    kLineEnd ∉ numText b n := fun h =>
  absurd (isAlnum_of_mem_numText hb hb16 h) (by decide)

theorem lineEnd_not_mem_macText (mac : MacAddress) : kLineEnd ∉ macText mac := by
  have hbyte : ∀ b, kLineEnd ∉ macByteText b := by
    intro b h
    obtain ⟨d, hd, hc⟩ := List.mem_map.mp h
    have halnum := isAlnum_digitByte (digit_lt_of_mem_macDigits hd)
    rw [hc] at halnum
    exact absurd halnum (by decide)
  intro h
  rcases List.mem_append.mp h with h | h
  · exact hbyte _ h
  · obtain ⟨b, -, hb⟩ := List.mem_flatMap.mp h
    rcases List.mem_cons.mp hb with hb | hb
    · exact absurd hb (by decide)
    · exact hbyte b hb

theorem lineEnd_not_mem_ethText (header : Option EthernetHeader) :
    kLineEnd ∉ headerText EthernetHeader.text header := by
  cases header with
  | none => simp [headerText]
  | some header =>
    simp only [headerText, EthernetHeader.text, List.mem_append, not_or]
    exact ⟨⟨by decide, by decide, lineEnd_not_mem_numText (by decide) le_rfl, by decide,
      lineEnd_not_mem_macText _, by decide, lineEnd_not_mem_macText _⟩, by decide⟩

theorem lineEnd_not_mem_fieldsText (net : NetworkEvent) : kLineEnd ∉ net.fieldsText := by
  have hdec : ∀ n, kLineEnd ∉ toString10 n := fun n =>
    lineEnd_not_mem_numText (by decide) (by decide)
  have hdevice : kLineEnd ∉ net.deviceType.text := by cases net.deviceType <;> decide
  have hboundary : kLineEnd ∉ net.boundaryType.text := by cases net.boundaryType <;> decide
  have hflag : kLineEnd ∉ boolToString net.interestingFlag := by
    cases net.interestingFlag <;> decide
  simp only [NetworkEvent.fieldsText, fieldText, List.mem_append, not_or]
  exact ⟨⟨by decide, hdec _⟩, ⟨by decide, hdec _⟩, ⟨by decide, hdevice⟩, ⟨by decide, hdec _⟩,
    ⟨by decide, hflag⟩, ⟨by decide, hdec _⟩, by decide, hboundary⟩

theorem lineEnd_not_mem_headText {e : Event} (he : e.HeadInDomain) : kLineEnd ∉ e.headText := by
  have hdec : ∀ n, kLineEnd ∉ numText 10 n := fun n =>
    lineEnd_not_mem_numText (by decide) (by decide)
  have hkind : kLineEnd ∉ e.kind.getName := fun h =>
    absurd (e.kind.getName_spec.2 _ h) (by decide)
  have hname : kLineEnd ∉ e.parserName := fun h => absurd (he.name_class _ h) (by decide)
  simp only [Event.headText, fieldText, toString10, List.mem_append, not_or]
  exact ⟨hkind, ⟨by decide, hdec _⟩, ⟨by decide, hname⟩, by decide, hdec _⟩

theorem Event.NetworkInDomain.lineEnd_not_mem_line {e : Event} {net : NetworkEvent}
    (he : e.NetworkInDomain net) : kLineEnd ∉ e.line := by
  rw [Event.line, he.prints_display.text_fresh, NetworkEvent.headersText]
  simp only [List.mem_append, not_or]
  exact ⟨lineEnd_not_mem_headText he.head, lineEnd_not_mem_fieldsText net,
    lineEnd_not_mem_ethText _, not_mem_arpText (by decide) (by decide),
    not_mem_ipv4Text (by decide) (by decide)⟩

end LineEnds

/-- A printer on a stream in base ten writes the lines of network events as if
each of them had a fresh stream of its own. -/
theorem prints_printAll {es : List Event} (hes : ∀ e ∈ es, ∃ net, e.NetworkInDomain net) :
    Prints (printAll es) .dec (es.flatMap fun e => e.line ++ [kLineEnd]) .dec := by
  induction es with
  | nil =>
    intro u
    simp [printAll]
  | cons e es ih =>
    obtain ⟨net, he⟩ := hes e (by simp)
    have hline := he.prints_display
    rw [← hline.text_fresh] at hline
    have hprint : Prints e.print .dec (e.line ++ [kLineEnd]) .dec := hline.comp (.put [kLineEnd])
    have hrest := ih fun e' he' => hes e' (List.mem_cons_of_mem e he')
    intro u
    rw [List.flatMap_cons]
    exact hprint.comp hrest u

/-- The lines that one printer writes for a list of network events are parsed,
in order, to these events. -/
theorem parseEvent_printed_lines (es : List Event)
    (hes : ∀ e ∈ es, ∃ net, e.NetworkInDomain net) :
    List.Forall₂
      (fun line e => ∀ mem, (parseEvent (.ofLine line (kLineEnd :: mem))).1 = some e)
      (lines kLineEnd (printAll es .fresh).text) es := by
  rw [(prints_printAll hes).text_fresh]
  induction es with
  | nil => simp
  | cons e es ih =>
    obtain ⟨net, he⟩ := hes e (by simp)
    have hne : e.line ≠ [] := by
      rw [Event.line, he.prints_display.text_fresh]
      simp [Event.headText, e.kind.getName_spec.1]
    rw [List.flatMap_cons, List.append_assoc, List.singleton_append,
      lines_line_append he.lineEnd_not_mem_line hne]
    refine List.Forall₂.cons (fun mem => ?_) (ih fun e' he' => hes e' (List.mem_cons_of_mem e he'))
    refine he.parse mem _ ?_
    rw [← he.prints_display.text_fresh]
    exact atText_ofLine e.line mem

/-- An event with all three headers, followed by one with none. -/
def twoNetworkEvents : List Event :=
  [⟨1905164778000, 1, bytes "ns3-0", .networkEnqueue
    ⟨1, 2, .kSimpleNetDevice, 71, true, 1024, .kWithinSimulator,
      some ⟨0x800, ⟨[0x0c, 0x42, 0xa1, 0xa8, 0x2d, 0xc6], rfl⟩, ⟨[0, 0x90, 0, 0, 0, 0x17], rfl⟩⟩,
      some ⟨⟨0xc0a84001⟩, ⟨0xc0a84002⟩, false⟩, some ⟨1052, ⟨0xc0a84001⟩, ⟨0xc0a84000⟩⟩⟩⟩,
   ⟨1905164779000, 1, bytes "ns3-0", .networkDrop
    ⟨1, 2, .kCosimNetDevice, 72, false, 0, .kToAdapter, none, none, none⟩⟩]

theorem parseEvent_twoNetworkEvents :
    List.Forall₂
      (fun line e => ∀ mem, (parseEvent (.ofLine line (kLineEnd :: mem))).1 = some e)
      (lines kLineEnd (printAll twoNetworkEvents .fresh).text) twoNetworkEvents := by
  refine parseEvent_printed_lines twoNetworkEvents fun e he => ?_
  have hhead : ∀ ts kind, ts.toNat < ULONG_MAX →
      Event.HeadInDomain ⟨ts, 1, bytes "ns3-0", kind⟩ :=
    fun ts kind hts => ⟨(by decide : bytes "ns3-0" ≠ []),
      List.all_eq_true.mp (by decide : (bytes "ns3-0").all isSourceName = true),
      (by decide : (1 : UInt64).toNat < ULONG_MAX), hts⟩
  simp only [twoNetworkEvents, List.mem_cons, List.not_mem_nil, or_false] at he
  rcases he with rfl | rfl
  · exact ⟨_, hhead _ _ (by decide), .inl rfl, ⟨by rintro _ ⟨⟩; decide, by rintro _ ⟨⟩; decide⟩,
      by decide, by decide, by decide, by decide⟩
  · exact ⟨_, hhead _ _ (by decide), .inr (.inr rfl), ⟨by simp, by simp⟩,
      by decide, by decide, by decide, by decide⟩

/-- An event at the largest timestamp, which the parser takes for an overflow. -/
def lastDrop : Event :=
  ⟨0xffffffffffffffff, 1, bytes "ns3-0", .networkDrop
    ⟨1, 2, .kCosimNetDevice, 72, false, 0, .kToAdapter, none, none, none⟩⟩

theorem not_parseEvent_lastDrop :
    (∀ c ∈ lastDrop.parserName, isSourceName c = true) ∧
    (∃ net, lastDrop.kind = .networkDrop net ∧ net.InDomain) ∧
    ¬ List.Forall₂
      (fun line e => ∀ mem, (parseEvent (.ofLine line (kLineEnd :: mem))).1 = some e)
      (lines kLineEnd (printAll [lastDrop] .fresh).text) [lastDrop] := by
  refine ⟨List.all_eq_true.mp (by decide),
    ⟨_, rfl, ⟨by simp, by simp⟩, by decide, by decide, by decide, by decide⟩, ?_⟩
  rw [show lines kLineEnd (printAll [lastDrop] .fresh).text = [lastDrop.line] by decide +kernel]
  intro h
  rw [List.forall₂_cons] at h
  exact absurd (h.1 []) (by decide +kernel)

end Columbo
