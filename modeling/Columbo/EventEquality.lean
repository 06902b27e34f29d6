import Columbo.Span

/-!
# Equality of events

The `Equal` methods. Each level of the class hierarchy compares its own fields and asks the
level above it; a `dynamic_cast` to an intermediate class is a function that returns the
fields of that class where the event has them. Events are compared with the fields of their
own class, except calls: their base class only takes events that are plain instructions.
-/
namespace Columbo

namespace EventKind

/-- The identifier of a `HostIdOp`. -/
def asHostIdOp : EventKind → Option UInt64
  | hostMmioCR ident | hostMmioCW ident | hostDmaC ident => some ident
  | hostMmioR ident _ _ _ _ | hostMmioW ident _ _ _ _ _ => some ident
  | hostDmaR ident _ _ | hostDmaW ident _ _ => some ident
  | _ => none

/-- Address and size of a `HostAddrSizeOp`. -/
def asHostAddrSizeOp : EventKind → Option (UInt64 × UInt64)
  | hostMmioR _ addr size _ _ | hostMmioW _ addr size _ _ _ => some (addr, size)
  | hostDmaR _ addr size | hostDmaW _ addr size => some (addr, size)
  | _ => none

/-- BAR and offset of a `HostMmioOp`. -/
def asHostMmioOp : EventKind → Option (Int32 × UInt64)
  | hostMmioR _ _ _ bar offset | hostMmioW _ _ _ bar offset _ => some (bar, offset)
  | _ => none

/-- Identifier, address and length of a `NicDma`. -/
def asNicDma : EventKind → Option (UInt64 × UInt64 × UInt64)
  | nicDmaI ident addr len | nicDmaEx ident addr len | nicDmaEn ident addr len
  | nicDmaCR ident addr len | nicDmaCW ident addr len => some (ident, addr, len)
  | _ => none

/-- Offset, length and value of a `NicMmio`. -/
def asNicMmio : EventKind → Option (UInt64 × UInt64 × UInt64)
  | nicMmioR off len val | nicMmioW off len val _ => some (off, len, val)
  | _ => none

/-- Length and direction of a `NicTrx`. -/
def asNicTrx : EventKind → Option (UInt64 × Bool)
  | nicTx len => some (len, false)
  | nicRx _ len => some (len, true)
  | _ => none

end EventKind

namespace Event

/-- `Event::Equal`. -/
def equalEvent (e other : Event) : Bool :=
  e.timestamp == other.timestamp && e.parserIdentifier == other.parserIdentifier &&
    e.parserName == other.parserName && e.getType == other.getType &&
    e.kind.getName == other.kind.getName

def equalHostInstr (pc : UInt64) (e other : Event) : Bool :=
  if other.getType ≠ .kHostInstrT then false
  else match other.kind with
    | .hostInstr pc' => pc == pc' && e.equalEvent other
    | _ => false

def equalHostCall (pc : UInt64) (func comp : Option Bytes) (e other : Event) : Bool :=
  match other.kind with
  | .hostCall _ func' comp' => func == func' && comp == comp' && equalHostInstr pc e other
  | _ => false

def equalHostIdOp (ident : UInt64) (e other : Event) : Bool :=
  match other.kind.asHostIdOp with
  | none => false
  | some ident' => ident == ident' && e.equalEvent other

def equalHostAddrSizeOp (ident addr size : UInt64) (e other : Event) : Bool :=
  match other.kind.asHostAddrSizeOp with
  | none => false
  | some (addr', size') => addr == addr' && size == size' && equalHostIdOp ident e other

def equalHostMmioOp (ident addr size : UInt64) (bar : Int32) (offset : UInt64)
    (e other : Event) : Bool :=
  match other.kind.asHostMmioOp with
  | none => false
  | some (bar', offset') =>
    bar == bar' && offset == offset' && equalHostAddrSizeOp ident addr size e other

def equalHostMmioW (ident addr size : UInt64) (bar : Int32) (offset : UInt64) (posted : Bool)
    (e other : Event) : Bool :=
  match other.kind with
  | .hostMmioW _ _ _ _ _ posted' =>
    posted == posted' && equalHostMmioOp ident addr size bar offset e other
  | _ => false

def equalHostMsiX (vec : UInt64) (e other : Event) : Bool :=
  match other.kind with
  | .hostMsiX vec' => vec == vec' && e.equalEvent other
  | _ => false

def equalHostConf (dev func reg bytes data : UInt64) (isRead : Bool) (e other : Event) : Bool :=
  match other.kind with
  | .hostConf dev' func' reg' bytes' data' isRead' =>
    dev == dev' && func == func' && reg == reg' && bytes == bytes' && data == data' &&
      isRead == isRead' && e.equalEvent other
  | _ => false

def equalHostPciRW (offset size : UInt64) (isRead : Bool) (e other : Event) : Bool :=
  match other.kind with
  | .hostPciRW offset' size' isRead' =>
    offset == offset' && size == size' && isRead == isRead' && e.equalEvent other
  | _ => false

def equalNicMsix (vec : UInt16) (isX : Bool) (e other : Event) : Bool :=
  match other.kind with
  | .nicMsix vec' isX' => vec == vec' && isX == isX' && e.equalEvent other
  | _ => false

def equalNicDma (ident addr len : UInt64) (e other : Event) : Bool :=
  match other.kind.asNicDma with
  | none => false
  | some (ident', addr', len') =>
    ident == ident' && addr == addr' && len == len' && e.equalEvent other

def equalSetIX (intr : UInt64) (e other : Event) : Bool :=
  match other.kind with
  | .setIX intr' => intr == intr' && e.equalEvent other
  | _ => false

def equalNicMmio (off len val : UInt64) (e other : Event) : Bool :=
  match other.kind.asNicMmio with
  | none => false
  | some (off', len', val') => off == off' && len == len' && val == val' && e.equalEvent other

def equalNicMmioW (off len val : UInt64) (posted : Bool) (e other : Event) : Bool :=
  if !equalNicMmio off len val e other then false
  else match other.kind with
    | .nicMmioW _ _ _ posted' => posted' == posted
    | _ => false

def equalNicTrx (len : UInt64) (isRead : Bool) (e other : Event) : Bool :=
  match other.kind.asNicTrx with
  | none => false
  | some (len', isRead') => len == len' && isRead == isRead' && e.equalEvent other

def equalNicRx (port : Int32) (len : UInt64) (e other : Event) : Bool :=
  match other.kind with
  | .nicRx port' _ => port == port' && equalNicTrx len true e other
  | _ => false

/-- The comparison of an optional header, as `NetworkEvent::Equal` makes it for each header. -/
def headersDiffer {α : Type} [DecidableEq α] (header other : Option α) : Bool :=
  match header, other with
  | some _, none | none, some _ => true
  | some x, some y => x != y
  | none, none => false

/-- `NetworkEvent::Equal`. -/
def equalNetworkEvent (net : NetworkEvent) (e other : Event) : Bool :=
  match other.network with
  | none => false
  | some net' =>
    if headersDiffer net.ethernetHeader net'.ethernetHeader then false
    else if headersDiffer net.arpHeader net'.arpHeader then false
    else if headersDiffer net.ipHeader net'.ipHeader then false
    else
      net.node == net'.node && net.device == net'.device &&
        net.payloadSize == net'.payloadSize && net.deviceType == net'.deviceType &&
        net.boundaryType == net'.boundaryType && net.packetUid == net'.packetUid &&
        net.interestingFlag == net'.interestingFlag && e.equalEvent other

/-- `Equal` of the three network classes, which first look at the type. -/
def equalNetwork (type : EventType) (net : NetworkEvent) (e other : Event) : Bool :=
  if other.getType ≠ type then false else equalNetworkEvent net e other

/-- `Equal`, by the class of the event it is called on. -/
def equal (e other : Event) : Bool :=
  match e.kind with
  | .simSendSync | .simProcInEvent | .hostMmioImRespPoW | .hostClearInt | .hostPostInt =>
    e.equalEvent other
  | .hostInstr pc => equalHostInstr pc e other
  | .hostCall pc func comp => equalHostCall pc func comp e other
  | .hostMmioCR ident | .hostMmioCW ident | .hostDmaC ident => equalHostIdOp ident e other
  | .hostMmioR ident addr size bar offset => equalHostMmioOp ident addr size bar offset e other
  | .hostMmioW ident addr size bar offset posted =>
    equalHostMmioW ident addr size bar offset posted e other
  | .hostDmaR ident addr size | .hostDmaW ident addr size =>
    equalHostAddrSizeOp ident addr size e other
  | .hostMsiX vec => equalHostMsiX vec e other
  | .hostConf dev func reg bytes data isRead => equalHostConf dev func reg bytes data isRead e other
  | .hostPciRW offset size isRead => equalHostPciRW offset size isRead e other
  | .nicMsix vec isX => equalNicMsix vec isX e other
  | .setIX intr => equalSetIX intr e other
  | .nicDmaI ident addr len | .nicDmaEx ident addr len | .nicDmaEn ident addr len
  | .nicDmaCR ident addr len | .nicDmaCW ident addr len => equalNicDma ident addr len e other
  | .nicMmioR off len val => equalNicMmio off len val e other
  | .nicMmioW off len val posted => equalNicMmioW off len val posted e other
  | .nicTx len => equalNicTrx len false e other
  | .nicRx port len => equalNicRx port len e other
  | .networkEnqueue net => equalNetwork .kNetworkEnqueueT net e other
  | .networkDequeue net => equalNetwork .kNetworkDequeueT net e other
  | .networkDrop net => equalNetwork .kNetworkDropT net e other

variable {e other : Event}

theorem equalEvent_iff : e.equalEvent other = true ↔ e.timestamp = other.timestamp ∧
    e.parserIdentifier = other.parserIdentifier ∧ e.parserName = other.parserName ∧
    e.getType = other.getType ∧ e.kind.getName = other.kind.getName := by
  simp [equalEvent, and_assoc]

/-- With equal shared fields, two events differ in the fields of their class only. -/
theorem eq_iff_of_equalEvent (h : e.equalEvent other = true) :
    e = other ↔ e.kind = other.kind := by
  obtain ⟨hts, hident, hname, -, -⟩ := equalEvent_iff.mp h
  cases e
  cases other
  simp_all

theorem headersDiffer_iff {α : Type} [DecidableEq α] {header header' : Option α} :
    headersDiffer header header' = true ↔ header ≠ header' := by
  cases header <;> cases header' <;> simp [headersDiffer]

theorem equalHostInstr_iff {pc : UInt64} : equalHostInstr pc e other = true ↔
    other.kind = .hostInstr pc ∧ e.equalEvent other = true := by
  unfold equalHostInstr getType
  cases other.kind <;> simp [EventKind.getType]
  grind

/-- A call is no plain instruction, which is what its base class asks for. -/
theorem equalHostCall_eq_false {pc : UInt64} {func comp : Option Bytes} :
    equalHostCall pc func comp e other = false := by
  unfold equalHostCall
  cases hkind : other.kind <;> simp [equalHostInstr, getType, hkind, EventKind.getType]

theorem equalHostIdOp_iff {ident : UInt64} : equalHostIdOp ident e other = true ↔
    other.kind.asHostIdOp = some ident ∧ e.equalEvent other = true := by
  unfold equalHostIdOp
  cases other.kind.asHostIdOp <;> grind

theorem equalHostAddrSizeOp_iff {ident addr size : UInt64} :
    equalHostAddrSizeOp ident addr size e other = true ↔
      other.kind.asHostAddrSizeOp = some (addr, size) ∧ other.kind.asHostIdOp = some ident ∧
        e.equalEvent other = true := by
  unfold equalHostAddrSizeOp
  rw [← equalHostIdOp_iff]
  cases other.kind.asHostAddrSizeOp <;> grind

theorem equalHostMmioOp_iff {ident addr size : UInt64} {bar : Int32} {offset : UInt64} :
    equalHostMmioOp ident addr size bar offset e other = true ↔
      other.kind.asHostMmioOp = some (bar, offset) ∧
        other.kind.asHostAddrSizeOp = some (addr, size) ∧ other.kind.asHostIdOp = some ident ∧
          e.equalEvent other = true := by
  unfold equalHostMmioOp
  rw [← equalHostAddrSizeOp_iff]
  cases other.kind.asHostMmioOp <;> grind

theorem equalNicDma_iff {ident addr len : UInt64} : equalNicDma ident addr len e other = true ↔
    other.kind.asNicDma = some (ident, addr, len) ∧ e.equalEvent other = true := by
  unfold equalNicDma
  cases other.kind.asNicDma <;> grind

theorem equalNicMmio_iff {off len val : UInt64} : equalNicMmio off len val e other = true ↔
    other.kind.asNicMmio = some (off, len, val) ∧ e.equalEvent other = true := by
  unfold equalNicMmio
  cases other.kind.asNicMmio <;> grind

theorem equalNicTrx_iff {len : UInt64} {isRead : Bool} : equalNicTrx len isRead e other = true ↔
    other.kind.asNicTrx = some (len, isRead) ∧ e.equalEvent other = true := by
  unfold equalNicTrx
  cases other.kind.asNicTrx <;> grind

theorem equalNetworkEvent_iff {net : NetworkEvent} : equalNetworkEvent net e other = true ↔
    other.network = some net ∧ e.equalEvent other = true := by
  unfold equalNetworkEvent
  cases other.network with
  | none => simp
  | some net' =>
    cases net
    cases net'
    simp only [Bool.if_false_left, Bool.and_eq_true, Bool.not_eq_true', decide_eq_false_iff_not,
      headersDiffer_iff, ne_eq, not_not, beq_iff_eq]
    grind

theorem equalHostMmioW_iff {ident addr size : UInt64} {bar : Int32} {offset : UInt64}
    {posted : Bool} : equalHostMmioW ident addr size bar offset posted e other = true ↔
      other.kind = .hostMmioW ident addr size bar offset posted ∧ e.equalEvent other = true := by
  unfold equalHostMmioW
  cases hkind : other.kind <;> simp [equalHostMmioOp_iff, hkind, EventKind.asHostMmioOp,
    EventKind.asHostAddrSizeOp, EventKind.asHostIdOp]
  grind

theorem equalHostMsiX_iff {vec : UInt64} : equalHostMsiX vec e other = true ↔
    other.kind = .hostMsiX vec ∧ e.equalEvent other = true := by
  unfold equalHostMsiX
  cases other.kind <;> simp
  grind

theorem equalHostConf_iff {dev func reg bytes data : UInt64} {isRead : Bool} :
    equalHostConf dev func reg bytes data isRead e other = true ↔
      other.kind = .hostConf dev func reg bytes data isRead ∧ e.equalEvent other = true := by
  unfold equalHostConf
  cases other.kind <;> simp
  grind

theorem equalHostPciRW_iff {offset size : UInt64} {isRead : Bool} :
    equalHostPciRW offset size isRead e other = true ↔
      other.kind = .hostPciRW offset size isRead ∧ e.equalEvent other = true := by
  unfold equalHostPciRW
  cases other.kind <;> simp
  grind

theorem equalNicMsix_iff {vec : UInt16} {isX : Bool} : equalNicMsix vec isX e other = true ↔
    other.kind = .nicMsix vec isX ∧ e.equalEvent other = true := by
  unfold equalNicMsix
  cases other.kind <;> simp
  grind

theorem equalSetIX_iff {intr : UInt64} : equalSetIX intr e other = true ↔
    other.kind = .setIX intr ∧ e.equalEvent other = true := by
  unfold equalSetIX
  cases other.kind <;> simp
  grind

theorem equalNicMmioW_iff {off len val : UInt64} {posted : Bool} :
    equalNicMmioW off len val posted e other = true ↔
      other.kind = .nicMmioW off len val posted ∧ e.equalEvent other = true := by
  unfold equalNicMmioW
  cases hkind : other.kind <;> simp [equalNicMmio_iff, hkind, EventKind.asNicMmio]
  grind

theorem equalNicRx_iff {port : Int32} {len : UInt64} : equalNicRx port len e other = true ↔
    other.kind = .nicRx port len ∧ e.equalEvent other = true := by
  unfold equalNicRx
  cases hkind : other.kind <;> simp [equalNicTrx_iff, hkind, EventKind.asNicTrx]
  grind

theorem equalNetwork_iff {type : EventType} {net : NetworkEvent} :
    equalNetwork type net e other = true ↔
      other.getType = type ∧ other.network = some net ∧ e.equalEvent other = true := by
  unfold equalNetwork
  rw [← equalNetworkEvent_iff]
  split_ifs with htype
  · simp [htype]
  · simp [not_not.mp htype]

/-- Every level ends with the comparison of the shared fields. -/
theorem equalEvent_of_equal (h : e.equal other = true) : e.equalEvent other = true := by
  unfold equal at h
  cases hkind : e.kind <;> rw [hkind] at h
  case simSendSync | simProcInEvent | hostMmioImRespPoW | hostClearInt | hostPostInt => exact h
  case hostInstr => exact (equalHostInstr_iff.mp h).2
  case hostCall => exact absurd h (by simp [equalHostCall_eq_false])
  case hostMmioCR | hostMmioCW | hostDmaC => exact (equalHostIdOp_iff.mp h).2
  case hostMmioR => exact (equalHostMmioOp_iff.mp h).2.2.2
  case hostMmioW => exact (equalHostMmioW_iff.mp h).2
  case hostDmaR | hostDmaW => exact (equalHostAddrSizeOp_iff.mp h).2.2
  case hostMsiX => exact (equalHostMsiX_iff.mp h).2
  case hostConf => exact (equalHostConf_iff.mp h).2
  case hostPciRW => exact (equalHostPciRW_iff.mp h).2
  case nicMsix => exact (equalNicMsix_iff.mp h).2
  case setIX => exact (equalSetIX_iff.mp h).2
  case nicDmaI | nicDmaEx | nicDmaEn | nicDmaCR | nicDmaCW => exact (equalNicDma_iff.mp h).2
  case nicMmioR => exact (equalNicMmio_iff.mp h).2
  case nicMmioW => exact (equalNicMmioW_iff.mp h).2
  case nicTx => exact (equalNicTrx_iff.mp h).2
  case nicRx => exact (equalNicRx_iff.mp h).2
  case networkEnqueue | networkDequeue | networkDrop => exact (equalNetwork_iff.mp h).2.2

/-- Between events of one class that agree on the shared fields, `Equal` compares the fields of
the class. -/
theorem equal_iff_kind (hevent : e.equalEvent other = true) : e.equal other = true ↔
    e.kind = other.kind ∧ e.getType ≠ .kHostCallT := by
  have htype : e.kind.getType = other.kind.getType := (equalEvent_iff.mp hevent).2.2.2.1
  generalize hkind : e.kind = k at htype
  generalize hother : other.kind = k' at htype
  -- Pairs of different classes have different types.
  cases k <;> cases k' <;>
    first
    | (cases htype; done)
    | (simp [equal, hkind, hevent, hother, getType, EventKind.getType, equalHostInstr_iff,
        equalHostCall_eq_false, equalHostIdOp_iff, equalHostAddrSizeOp_iff, equalHostMmioOp_iff,
        equalHostMmioW_iff, equalHostMsiX_iff, equalHostConf_iff, equalHostPciRW_iff,
        equalNicMsix_iff, equalSetIX_iff, equalNicDma_iff, equalNicMmio_iff, equalNicMmioW_iff,
        equalNicTrx_iff, equalNicRx_iff, equalNetwork_iff, network, EventKind.asHostIdOp,
        EventKind.asHostAddrSizeOp, EventKind.asHostMmioOp, EventKind.asNicDma,
        EventKind.asNicMmio, EventKind.asNicTrx]; try grind)

/-- `Equal` is equality, but for calls. -/
theorem equal_iff : e.equal other = true ↔ e = other ∧ e.getType ≠ .kHostCallT := by
  constructor
  · intro hequal
    have hevent := equalEvent_of_equal hequal
    obtain ⟨hkind, hcall⟩ := (equal_iff_kind hevent).mp hequal
    exact ⟨(eq_iff_of_equalEvent hevent).mpr hkind, hcall⟩
  · rintro ⟨rfl, hcall⟩
    exact (equal_iff_kind (by simp [equalEvent])).mpr ⟨rfl, hcall⟩

/-- For every pair of events `Equal` is structural equality, if and only if the two are not
one and the same call. It is symmetric and transitive, and reflexive but for calls. -/
theorem equal_structural_iff (a b c : Event) :
    ((a.equal b = true ↔ a = b) ↔ ¬ (a = b ∧ a.getType = .kHostCallT)) ∧
      (a.equal a = true ↔ a.getType ≠ .kHostCallT) ∧ a.equal b = b.equal a ∧
        (a.equal b = true → b.equal c = true → a.equal c = true) := by
  refine ⟨?_, ?_, ?_, ?_⟩
  · rw [equal_iff]
    tauto
  · rw [equal_iff]
    tauto
  · rw [Bool.eq_iff_iff, equal_iff, equal_iff]
    constructor
    · rintro ⟨rfl, hcall⟩
      exact ⟨rfl, hcall⟩
    · rintro ⟨rfl, hcall⟩
      exact ⟨rfl, hcall⟩
  · intro hab hbc
    obtain ⟨rfl, -⟩ := equal_iff.mp hab
    exact hbc

/-- A call is not equal to itself. -/
theorem not_equal_structural : ¬ ∀ a b : Event, a.equal b = true ↔ a = b := by
  intro hall
  have hself := (hall ⟨0, 0, [], .hostCall 64 none none⟩ _).mpr rfl
  exact absurd hself (by decide)

end Event

end Columbo
