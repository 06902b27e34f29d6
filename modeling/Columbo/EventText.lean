import Columbo.EventStreamParser
import Columbo.LineReading

/-!
# The text of an event and how its fields are read

`headText` and `bodyText` say what `Display` writes to a fresh stream, field by
field and with the number base each field is really written in. The reading
rules are those of a field: its name, its value and the comma behind it.
-/
namespace Columbo

/-- A field is written as its name, with all separators, and its value. -/
def fieldText (name : String) (value : Bytes) : Bytes := bytes name ++ value

/-- Nothing follows a field, or the comma in front of the next one. -/
def FieldEnd (rest : Bytes) : Prop := ∀ c ∈ rest.head?, c = byte ','

@[simp] theorem fieldEnd_nil : FieldEnd [] := by simp [FieldEnd]

theorem fieldEnd_append {t : Bytes} (ht : t.head? = some (byte ',')) (rest : Bytes) :
    FieldEnd (t ++ rest) := by
  cases t with
  | nil => cases ht
  | cons c t =>
    intro d hd
    have hc : c = byte ',' := by simpa using ht
    have hd' : c = d := by simpa using hd
    exact hd' ▸ hc

theorem FieldEnd.stopsAt {rest : Bytes} (h : FieldEnd rest) {pred : UInt8 → Bool}
    (hp : pred (byte ',') = false) : StopsAt pred rest := by
  intro c hc
  rw [h c hc, hp]

theorem FieldEnd.stopsAlnum {rest : Bytes} (h : FieldEnd rest) : StopsAlnum rest := by
  intro c hc
  rw [h c hc]
  decide

section Printing

variable {a c : BaseField}

theorem Prints.field {q : OStream → OStream} {t : Bytes} (name : String) (hq : Prints q a t c) :
    Prints (fun out => q (out.str name)) a (fieldText name t) c :=
  (Prints.str name).comp hq

theorem Prints.hexField (name : String) (n : ℕ) :
    Prints (fun out => (out.str name).hex.uint n) a (fieldText name (numText 16 n)) .hex :=
  Prints.field name (Prints.hex.comp (.uint n))

theorem Prints.putField (name : String) (t : Bytes) :
    Prints (fun out => (out.str name).put t) a (fieldText name t) a :=
  Prints.field name (.put t)

theorem Prints.uintField (name : String) (n : ℕ) :
    Prints (fun out => (out.str name).uint n) a (fieldText name (numText a.toNat n)) a :=
  Prints.field name (.uint n)

theorem toStringInt_of_nonneg {i : Int32} (hi : 0 ≤ i) :
    toStringInt i = toString10 i.toNatClampNeg := by
  rw [toStringInt, if_neg (by simpa using hi)]

end Printing

section Layout

/-- What `Event::Display` writes on a stream in base ten. -/
def Event.headText (e : Event) : Bytes :=
  e.kind.getName ++ (fieldText ": source_id=" (numText 10 e.parserIdentifier.toNat) ++
    (fieldText ", source_name=" e.parserName ++
      fieldText ", timestamp=" (toString10 e.timestamp.toNat)))

theorem Event.prints_displayEvent (e : Event) : Prints e.displayEvent .dec e.headText .dec :=
  (Prints.put _).comp ((Prints.uintField _ _).comp ((Prints.putField _ _).comp (.putField _ _)))

def hostAddrSizeText (id addr size : UInt64) : Bytes :=
  fieldText ", id=" (toString10 id.toNat) ++
    (fieldText ", addr=" (numText 16 addr.toNat) ++ fieldText ", size=" (numText 16 size.toNat))

theorem prints_displayHostAddrSizeOp {a : BaseField} (id addr size : UInt64) :
    Prints (displayHostAddrSizeOp id addr size) a (hostAddrSizeText id addr size) .hex :=
  (Prints.putField _ _).comp ((Prints.hexField _ _).comp (.uintField _ _))

/-- The BAR of an access is written in base sixteen: the base of the fields in
front of it is still in force. -/
def hostMmioText (id addr size : UInt64) (bar : Int32) (offset : UInt64) : Bytes :=
  hostAddrSizeText id addr size ++ (fieldText ", bar=" (numText 16 bar.toNatClampNeg) ++
    fieldText ", offset=" (numText 16 offset.toNat))

theorem prints_displayHostMmioOp (id addr size : UInt64) {bar : Int32} (offset : UInt64)
    (hbar : 0 ≤ bar) :
    Prints (displayHostMmioOp id addr size bar offset) .dec
      (hostMmioText id addr size bar offset) .hex :=
  (prints_displayHostAddrSizeOp id addr size).comp
    ((Prints.field _ (.int hbar)).comp (.hexField _ _))

theorem prints_displayHostMmioW (id addr size : UInt64) {bar : Int32} (offset : UInt64)
    (posted : Bool) (hbar : 0 ≤ bar) :
    Prints (displayHostMmioW id addr size bar offset posted) .dec
      (hostMmioText id addr size bar offset ++ fieldText ", posted=" (boolToString posted))
      .hex := by
  unfold displayHostMmioW
  exact (prints_displayHostMmioOp id addr size offset hbar).comp
    (Prints.putField ", posted=" (boolToString posted))

def nicMmioText (off len val : UInt64) : Bytes :=
  fieldText ", off=" (numText 16 off.toNat) ++
    (fieldText ", len=" (numText 16 len.toNat) ++ fieldText ", val=" (numText 16 val.toNat))

theorem prints_displayNicMmio {a : BaseField} (off len val : UInt64) :
    Prints (displayNicMmio off len val) a (nicMmioText off len val) .hex :=
  (Prints.hexField _ _).comp ((Prints.uintField _ _).comp (.hexField _ _))

theorem prints_displayNicMmioW {a : BaseField} (off len val : UInt64) (posted : Bool) :
    Prints (displayNicMmioW off len val posted) a
      (nicMmioText off len val ++ fieldText ", posted=" (boolToString posted)) .hex :=
  (prints_displayNicMmio off len val).comp (.putField _ _)

def nicTrxText (len : UInt64) (isRead : Bytes) : Bytes :=
  fieldText ", len=" (numText 10 len.toNat) ++ fieldText ", is_read=" isRead

theorem prints_displayNicTrx (len : UInt64) (isRead : Bool) :
    Prints (displayNicTrx len isRead) .dec
      (nicTrxText len (if isRead then bytes "true" else bytes "false")) .dec :=
  (Prints.uintField _ _).comp (.putField _ _)

theorem prints_displayNicRx {port : Int32} (len : UInt64) (hport : 0 ≤ port) :
    Prints (displayNicRx port len) .dec
      (nicTrxText len (bytes "true") ++ fieldText ", port=" (toString10 port.toNatClampNeg))
      .dec := by
  rw [← toStringInt_of_nonneg hport]
  exact (prints_displayNicTrx len true).comp (.putField _ _)

namespace EventKind

/-- What the class of a host or NIC event writes behind the shared fields. -/
def bodyText : EventKind → Bytes
  | hostInstr pc => fieldText ", pc=" (numText 16 pc.toNat)
  | hostCall pc func comp =>
    fieldText ", pc=" (numText 16 pc.toNat) ++
      (fieldText ", func=" (func.getD (Columbo.bytes "null")) ++
        fieldText ", comp=" (comp.getD (Columbo.bytes "null")))
  | hostMmioCR id | hostMmioCW id | hostDmaC id => fieldText ", id=" (toString10 id.toNat)
  | hostMmioR id addr size bar offset => hostMmioText id addr size bar offset
  | hostMmioW id addr size bar offset posted =>
    hostMmioText id addr size bar offset ++ fieldText ", posted=" (boolToString posted)
  | hostDmaR id addr size | hostDmaW id addr size => hostAddrSizeText id addr size
  | hostMsiX vec => fieldText ", vec=" (toString10 vec.toNat)
  | hostConf dev func reg bytes data _ =>
    fieldText ", dev=" (numText 16 dev.toNat) ++ (fieldText ", func=" (numText 16 func.toNat) ++
      (fieldText ", reg=" (numText 16 reg.toNat) ++
        (fieldText ", bytes=" (numText 16 bytes.toNat) ++
          fieldText ", data=" (numText 16 data.toNat))))
  | hostPciRW offset size _ =>
    fieldText ", offset=" (numText 16 offset.toNat) ++
      fieldText ", size=" (numText 16 size.toNat)
  | nicMsix vec _ => fieldText ", vec=" (toString10 vec.toNat)
  | setIX intr => fieldText ", interrupt=" (numText 16 intr.toNat)
  | nicDmaI id addr len | nicDmaEx id addr len | nicDmaEn id addr len
  | nicDmaCR id addr len | nicDmaCW id addr len => hostAddrSizeText id addr len
  | nicMmioR off len val => nicMmioText off len val
  | nicMmioW off len val posted =>
    nicMmioText off len val ++ fieldText ", posted=" (boolToString posted)
  | nicTx len => nicTrxText len (Columbo.bytes "false")
  | nicRx port len =>
    nicTrxText len (Columbo.bytes "true") ++ fieldText ", port=" (toString10 port.toNatClampNeg)
  | _ => []

/-- The BAR and the port of an event are not negative. -/
def NonnegInts : EventKind → Prop
  | hostMmioR _ _ _ bar _ | hostMmioW _ _ _ bar _ _ => 0 ≤ bar
  | nicRx port _ => 0 ≤ port
  | _ => True

theorem prints_display {k : EventKind} (hk : k.isNetwork = false) (hi : k.NonnegInts) :
    ∃ b, Prints k.display .dec k.bodyText b := by
  cases k with
  | hostInstr pc => exact ⟨_, .hexField _ _⟩
  | hostCall pc func comp =>
    exact ⟨_, (Prints.hexField _ _).comp ((Prints.putField _ _).comp (.putField _ _))⟩
  | hostMmioCR | hostMmioCW | hostDmaC | hostMsiX | nicMsix => exact ⟨_, .putField _ _⟩
  | hostMmioR id addr size bar offset =>
    exact ⟨_, prints_displayHostMmioOp id addr size offset hi⟩
  | hostMmioW id addr size bar offset posted =>
    exact ⟨_, prints_displayHostMmioW id addr size offset posted hi⟩
  | hostDmaR | hostDmaW => exact ⟨_, prints_displayHostAddrSizeOp _ _ _⟩
  | hostConf =>
    exact ⟨_, (Prints.hexField _ _).comp ((Prints.hexField _ _).comp ((Prints.hexField _ _).comp
      ((Prints.uintField _ _).comp (.hexField _ _))))⟩
  | hostPciRW => exact ⟨_, (Prints.hexField _ _).comp (.uintField _ _)⟩
  | setIX => exact ⟨_, .hexField _ _⟩
  | nicDmaI | nicDmaEx | nicDmaEn | nicDmaCR | nicDmaCW =>
    exact ⟨_, prints_displayHostAddrSizeOp _ _ _⟩
  | nicMmioR => exact ⟨_, prints_displayNicMmio _ _ _⟩
  | nicMmioW off len val posted => exact ⟨_, prints_displayNicMmioW off len val posted⟩
  | nicTx => exact ⟨_, prints_displayNicTrx _ false⟩
  | nicRx port len => exact ⟨_, prints_displayNicRx len hi⟩
  | networkEnqueue | networkDequeue | networkDrop => cases hk
  | simSendSync | simProcInEvent | hostMmioImRespPoW | hostClearInt | hostPostInt =>
    exact ⟨.dec, fun u => by simp [display, bodyText]⟩

end EventKind

/-- The line of a host or NIC event, printed on a fresh stream. -/
theorem Event.line_eq {e : Event} (hk : e.kind.isNetwork = false) (hi : e.kind.NonnegInts) :
    e.line = e.headText ++ e.kind.bodyText := by
  obtain ⟨b, hb⟩ := EventKind.prints_display hk hi
  exact (e.prints_displayEvent.comp hb).text_fresh

end Layout

section Reading

variable {mem : Bytes}

theorem reads_uintField {name : String} (hname : bytes name ≠ []) {base : ℕ}
    (hbase : base = 10 ∨ base = 16) {n : UInt64} (hn : n.toNat < ULONG_MAX) :
    Reads (AtText mem) (uintField name base) (fieldText name (numText base n.toNat)) n FieldEnd :=
  (reads_consumeAndTrimString hname).seq
    ((reads_parseUintTrim hbase n hn).mono fun _ h => h.stopsAlnum)

theorem reads_intField {name : String} (hname : bytes name ≠ []) {i : Int32} (hi : 0 ≤ i) :
    Reads (AtText mem) (intField name) (fieldText name (toString10 i.toNatClampNeg)) i FieldEnd :=
  (reads_consumeAndTrimString hname).seq
    ((reads_parseInt i hi).mono fun _ h => h.stopsAlnum)

theorem reads_boolField {name : String} (hname : bytes name ≠ []) (x : Bool) :
    Reads (AtText mem) (boolField name) (fieldText name (boolToString x)) x FieldEnd :=
  (reads_consumeAndTrimString hname).seq
    ((reads_parseBoolFromStringRepr x).mono fun _ _ => trivial)

theorem reads_textField {name : String} (hname : bytes name ≠ []) {pred : UInt8 → Bool}
    (hpred : pred (byte ',') = false) {t : Bytes} (hne : t ≠ []) (ht : ∀ c ∈ t, pred c = true) :
    Reads (AtText mem) (textField name pred) (fieldText name t) t FieldEnd :=
  (reads_consumeAndTrimString hname).seq
    ((reads_extractAndSubstrUntilInto hne ht).mono fun _ h => h.stopsAt hpred)

/-- A field in front of further ones. -/
theorem Reads.field {α β : Type} {p : LineScan α} {f : α → LineScan β} {a : α} {b : β}
    {t u : Bytes} {ok : Bytes → Prop} (hp : Reads (AtText mem) p t a FieldEnd)
    (hf : Reads (AtText mem) (f a) u b ok) (hu : u.head? = some (byte ',')) :
    Reads (AtText mem) (p >>= f) (t ++ u) b ok :=
  hp.bind hf fun rest _ => fieldEnd_append hu rest

/-- A number field that was read holds what `strtoul` makes of its value. -/
theorem eq_of_uintField {h : LineHandler} {name : String} {base : ℕ} {t : Bytes} {v : UInt64}
    (hname : bytes name ≠ []) (hv : AtText mem h (bytes name ++ t))
    (hp : (uintField name base h).1 = some v) :
    strtoul base (t ++ kLineEnd :: mem) ≠ ULONG_MAX ∧
      v = (strtoul base (t ++ kLineEnd :: mem)).toUInt64 := by
  obtain ⟨h', hv', hp'⟩ := (reads_consumeAndTrimString hname).bind_eq_some hv trivial hp
  exact eq_of_parseUintTrim hv' hp'

theorem eq_of_intField {h : LineHandler} {name : String} {t : Bytes} {v : Int32}
    (hname : bytes name ≠ []) (hv : AtText mem h (bytes name ++ t))
    (hp : (intField name h).1 = some v) : v = Int32.ofNat (strtol (t ++ kLineEnd :: mem)) := by
  obtain ⟨h', hv', hp'⟩ := (reads_consumeAndTrimString hname).bind_eq_some hv trivial hp
  exact eq_of_parseInt hv' hp'

end Reading

namespace EventKind

theorem getName_spec (k : EventKind) :
    k.getName ≠ [] ∧ ∀ c ∈ k.getName, isAlnum c = true := by
  rw [← List.all_eq_true]
  cases k with
  | hostConf _ _ _ _ _ x | hostPciRW _ _ x | nicMsix _ x =>
    cases x <;> (simp only [getName]; decide)
  | _ => simp only [getName]; decide

/-- The parser that the dispatch finds for the name of a class. -/
def parser : EventKind → LineScan EventKind
  | simSendSync => pure simSendSync
  | simProcInEvent => pure simProcInEvent
  | hostInstr _ => parseHostInstr
  | hostCall .. => parseHostCall
  | hostMmioImRespPoW => pure hostMmioImRespPoW
  | hostMmioCR _ => parseHostIdOp hostMmioCR
  | hostMmioCW _ => parseHostIdOp hostMmioCW
  | hostMmioR .. => parseHostMmioR
  | hostMmioW .. => parseHostMmioW
  | hostDmaC _ => parseHostIdOp hostDmaC
  | hostDmaR .. => parseHostDma hostDmaR
  | hostDmaW .. => parseHostDma hostDmaW
  | hostMsiX _ => parseHostMsiX
  | hostConf _ _ _ _ _ isRead => parseHostConf isRead
  | hostClearInt => pure hostClearInt
  | hostPostInt => pure hostPostInt
  | hostPciRW _ _ isRead => parseHostPciRW isRead
  | nicMsix _ isX => parseNicMsix isX
  | setIX _ => parseSetIX
  | nicDmaI .. => parseNicDma nicDmaI
  | nicDmaEx .. => parseNicDma nicDmaEx
  | nicDmaEn .. => parseNicDma nicDmaEn
  | nicDmaCR .. => parseNicDma nicDmaCR
  | nicDmaCW .. => parseNicDma nicDmaCW
  | nicMmioR .. => parseNicMmioR
  | nicMmioW .. => parseNicMmioW
  | nicTx _ => parseNicTx
  | nicRx .. => parseNicRx
  | networkEnqueue _ => do return networkEnqueue (← parseNetworkEvent)
  | networkDequeue _ => do return networkDequeue (← parseNetworkEvent)
  | networkDrop _ => do return networkDrop (← parseNetworkEvent)

theorem parseKind_getName (k : EventKind) : parseKind k.getName = k.parser := by
  cases k with
  | hostConf _ _ _ _ _ x | hostPciRW _ _ x | nicMsix _ x => cases x <;> rfl
  | _ => rfl

end EventKind

section Front

variable {mem body : Bytes} {e : Event}

/-- A scan that reads a whole line. -/
theorem Reads.returns_nil {α : Type} {p : LineScan α} {t : Bytes} {a : α}
    (hp : Reads (AtText mem) p t a FieldEnd) : Returns (AtText mem) p t a := by
  rw [← List.append_nil t]
  exact hp.returns fieldEnd_nil

/-- The names, numbers and texts of the shared fields. -/
structure Event.HeadInDomain (e : Event) : Prop where
  name_ne : e.parserName ≠ []
  name_class : ∀ c ∈ e.parserName, isSourceName c = true
  ident_lt : e.parserIdentifier.toNat < ULONG_MAX
  ts_lt : e.timestamp.toNat < ULONG_MAX

theorem reads_eventName (k : EventKind) :
    Reads (AtText mem) (extractAndSubstrUntilInto fun c => c != byte ':') k.getName k.getName
      (StopsAt fun c => c != byte ':') := by
  refine reads_extractAndSubstrUntilInto k.getName_spec.1 fun c hc => ?_
  have halnum := k.getName_spec.2 c hc
  by_contra hcolon
  rw [show c = byte ':' by simpa using hcolon] at halnum
  exact absurd halnum (by decide)

theorem reads_parseIdentNameTs (he : e.HeadInDomain) :
    Reads (AtText mem) parseIdentNameTs
      (fieldText ": source_id=" (numText 10 e.parserIdentifier.toNat) ++
        (fieldText ", source_name=" e.parserName ++
          fieldText ", timestamp=" (toString10 e.timestamp.toNat)))
      (e.parserIdentifier, e.parserName, e.timestamp) FieldEnd := by
  refine (reads_uintField (by decide) (.inl rfl) he.ident_lt).field ?_ rfl
  refine (reads_textField (by decide) (by decide) he.name_ne he.name_class).field ?_ rfl
  exact (reads_uintField (by decide) (.inl rfl) he.ts_lt).map _

theorem reads_nothing (k : EventKind) (u : Bytes) :
    Reads (AtText mem) trimL [] () fun rest => rest = k.getName ++ u := by
  refine (reads_trimL (t := []) (by simp)).mono fun rest hrest => ?_
  obtain ⟨hne, halnum⟩ := k.getName_spec
  obtain ⟨c, cs, hk⟩ := List.exists_cons_of_ne_nil hne
  rw [hrest, hk, List.cons_append, stopsAt_cons]
  exact isSpace_of_isAlnum (halnum c (by simp [hk]))

/-- Behind the shared fields an event is read back when its class is. -/
theorem returns_parseEvent (he : e.HeadInDomain) (hend : FieldEnd body)
    (hk : Returns (AtText mem) (parseKind e.kind.getName) body e.kind) :
    Returns (AtText mem) parseEvent (e.headText ++ body) e := by
  rw [Event.headText, List.append_assoc, ← List.nil_append (e.kind.getName ++ _)]
  refine (reads_nothing e.kind _).bind_returns ?_ rfl
  refine (reads_eventName e.kind).bind_returns ?_ ?_
  · refine (reads_parseIdentNameTs he).bind_returns ?_ hend
    exact hk.bind fun _ => rfl
  · simp [fieldText, bytes, byte]

/-- An event that is read back has its class read back behind the shared fields. -/
theorem parseKind_of_parseEvent {h : LineHandler} (he : e.HeadInDomain) (hend : FieldEnd body)
    (hv : AtText mem h (e.headText ++ body)) (hp : (parseEvent h).1 = some e) :
    ∃ h', AtText mem h' body ∧ (parseKind e.kind.getName h').1 = some e.kind := by
  rw [Event.headText, List.append_assoc, ← List.nil_append (e.kind.getName ++ _)] at hv
  obtain ⟨h₁, hv₁, hp₁⟩ := (reads_nothing e.kind _).bind_eq_some hv rfl hp
  obtain ⟨h₂, hv₂, hp₂⟩ :=
    (reads_eventName e.kind).bind_eq_some hv₁ (by simp [fieldText, bytes, byte]) hp₁
  obtain ⟨h₃, hv₃, hp₃⟩ := (reads_parseIdentNameTs he).bind_eq_some hv₂ hend hp₂
  obtain ⟨kind, h₄, hk, hp₄⟩ := Scan.bind_eq_some hp₃
  have hkind : kind = e.kind := by
    have heq : (⟨e.timestamp, e.parserIdentifier, e.parserName, kind⟩ : Event) = e :=
      Option.some.inj hp₄
    exact congrArg Event.kind heq
  exact ⟨h₃, hv₃, by rw [hk, hkind]⟩

end Front

end Columbo
