import Columbo.NetworkEventRoundTrip
import Columbo.ParsedEvents
import Columbo.PrintedHistory

/-!
# Recording and replaying

An `EventPrinter` in a pipeline writes the events that reach it, and the file that it writes can
be the event stream of another run. The spanner of that run gets the same events if every one of
them is read back in the base that the ones before it left the stream in.
-/
namespace Columbo

/-- What `Event::Display` writes on a stream in some base. -/
def Event.headTextIn (base : BaseField) (e : Event) : Bytes :=
  e.kind.getName ++ (fieldText ": source_id=" (numText base.toNat e.parserIdentifier.toNat) ++
    (fieldText ", source_name=" e.parserName ++
      fieldText ", timestamp=" (toString10 e.timestamp.toNat)))

/-- What the class of a host or NIC event writes behind the shared fields on a stream in some
base. Only the length of a packet is written without setting the base. -/
def EventKind.bodyTextIn (base : BaseField) : EventKind → Bytes
  | nicTx len =>
    fieldText ", len=" (numText base.toNat len.toNat) ++
      fieldText ", is_read=" (Columbo.bytes "false")
  | nicRx port len =>
    fieldText ", len=" (numText base.toNat len.toNat) ++
      (fieldText ", is_read=" (Columbo.bytes "true") ++ fieldText ", port=" (toStringInt port))
  | k => k.bodyText

def Event.lineIn (base : BaseField) (e : Event) : Bytes :=
  e.headTextIn base ++ e.kind.bodyTextIn base

/-- The lines that a printer on a stream in some base writes for host and NIC events. -/
def recordedLines : BaseField → List Event → List Bytes
  | _, [] => []
  | base, e :: es => e.lineIn base :: recordedLines (e.kind.setsBase.getD base) es

section Lines

variable {base : BaseField} {e : Event} {es : List Event}

/-- Where no number depends on the base, the text is the same in both. -/
theorem Prints.of_inherits {p : OStream → OStream} {sets : Option BaseField} {t : Bytes}
    {c : BaseField} (h : Inherits p none sets) (hdec : Prints p .dec t c) (a : BaseField) :
    Prints p a t (sets.getD a) := by
  obtain ⟨t', u, -, hp⟩ := h
  have htext : t = t' ++ ([] ++ u) :=
    congrArg OStream.text ((hdec []).symm.trans (hp .dec []))
  rw [htext]
  exact hp a

theorem EventKind.prints_display_in {k : EventKind} (hk : k.isNetwork = false)
    (hi : k.NonnegInts) (a : BaseField) :
    Prints k.display a (k.bodyTextIn a) (k.setsBase.getD a) := by
  have hinherits := k.inherits_display
  obtain ⟨c, hdec⟩ := prints_display hk hi
  cases k with
  | nicTx len => exact (Prints.uintField _ _).comp (.putField _ _)
  | nicRx port len =>
    exact (Prints.uintField _ _).comp ((Prints.putField _ _).comp (.putField _ _))
  | networkEnqueue | networkDequeue | networkDrop => cases hk
  | _ => exact Prints.of_inherits hinherits hdec a

theorem Event.prints_print_in (hk : e.kind.isNetwork = false) (hi : e.kind.NonnegInts)
    (a : BaseField) : Prints e.print a (e.lineIn a ++ [kLineEnd]) (e.kind.setsBase.getD a) := by
  have hhead : Prints e.displayEvent a (e.headTextIn a) a :=
    (Prints.put _).comp ((Prints.uintField _ _).comp ((Prints.putField _ _).comp (.putField _ _)))
  exact (hhead.comp (EventKind.prints_display_in hk hi a)).comp (.put [kLineEnd])

theorem prints_recordedLines
    (hes : ∀ e ∈ es, e.kind.isNetwork = false ∧ e.kind.NonnegInts) (a : BaseField) :
    ∃ c, Prints (printAll es) a ((recordedLines a es).flatMap (· ++ [kLineEnd])) c := by
  induction es generalizing a with
  | nil => exact ⟨a, fun u => by simp [printAll, recordedLines]⟩
  | cons e es ih =>
    obtain ⟨hk, hi⟩ := hes e List.mem_cons_self
    obtain ⟨c, hrest⟩ := ih (fun e' he' => hes e' (List.mem_cons_of_mem e he'))
      (e.kind.setsBase.getD a)
    exact ⟨c, (Event.prints_print_in hk hi a).comp hrest⟩

end Lines

/-- The classes that are read back from a text in some base: the length of a packet that was
sent is read in base sixteen. -/
def EventKind.ReadsBack (base : BaseField) : EventKind → Prop
  | nicTx len => base = .dec → len.toNat < 10
  | k => k.RoundTrips

/-- The events whose lines in some base are read back: the identifier of the parser is read in
base ten. -/
structure Event.ReadsBack (base : BaseField) (e : Event) : Prop where
  ident : base = .hex → e.parserIdentifier.toNat < 10
  kind : e.kind.ReadsBack base

section Reading

variable {base : BaseField} {e : Event} {mem body : Bytes} {h : LineHandler}

theorem fieldEnd_bodyTextIn (base : BaseField) (k : EventKind) :
    FieldEnd (k.bodyTextIn base) := by
  have hbody := k.fieldEnd_bodyText
  cases k with
  | nicTx | nicRx => exact fieldEnd_append rfl _
  | _ => exact hbody

theorem Event.headTextIn_eq (hid : base = .hex → e.parserIdentifier.toNat < 10) :
    e.headTextIn base = e.headText := by
  cases base with
  | dec => rfl
  | hex =>
    have htext := numText_of_lt_ten (hid rfl)
    simp only [headTextIn, headText, BaseField.toNat, htext]

/-- A line that is read back shows an identifier of one digit, where it is in base sixteen. -/
theorem ident_lt_of_parseEvent
    (hv : AtText mem h (e.headTextIn .hex ++ body)) (hp : (parseEvent h).1 = some e) :
    e.parserIdentifier.toNat < 10 := by
  rw [Event.headTextIn, List.append_assoc, ← List.nil_append (e.kind.getName ++ _)] at hv
  obtain ⟨h₁, hv₁, hp₁⟩ := (reads_nothing e.kind _).bind_eq_some hv rfl hp
  obtain ⟨h₂, hv₂, hp₂⟩ :=
    (reads_eventName e.kind).bind_eq_some hv₁ (by simp [fieldText, bytes, byte]) hp₁
  obtain ⟨x, h₃, hx, hp₃⟩ := Scan.bind_eq_some hp₂
  obtain ⟨kind, h₄, -, hp₄⟩ := Scan.bind_eq_some hp₃
  have hident : x.1 = e.parserIdentifier := congrArg Event.parserIdentifier (Option.some.inj hp₄)
  have hfields : (parseIdentNameTs h₂).1 = some x := by rw [hx]
  obtain ⟨id, h₅, hid, hp₅⟩ := Scan.bind_eq_some hfields
  obtain ⟨name, h₆, -, hp₆⟩ := Scan.bind_eq_some hp₅
  obtain ⟨ts, h₇, -, hp₇⟩ := Scan.bind_eq_some hp₆
  have hsame : id = e.parserIdentifier := (congrArg Prod.fst (Option.some.inj hp₇)).trans hident
  rw [fieldText, List.append_assoc, List.append_assoc] at hv₂
  have heq := (eq_of_uintField (by decide) hv₂ (by rw [hid])).2
  rw [List.append_assoc] at heq
  exact lt_ten_of_hex_read_dec (fieldEnd_append rfl _).stopsAlnum (hsame ▸ heq)

/-- `ParseEvent` makes every packet that was received one without a length. -/
theorem yields_parseNicRx_length : parseNicRx.Yields fun k => ∃ port, k = .nicRx port 0 :=
  .after fun len => .after fun _ => .after fun _ => .pure ⟨len.toUInt32.toInt32, rfl⟩

/-- The classes that meet the condition are read back. -/
theorem EventKind.returns_parse_in {k : EventKind} (hd : k.InDomain) (hr : k.ReadsBack base) :
    Returns (AtText mem) k.parser (k.bodyTextIn base) k := by
  have hplain : k.bodyTextIn base = k.bodyText → k.RoundTrips →
      Returns (AtText mem) k.parser (k.bodyTextIn base) k := by
    intro htext hround
    rw [htext]
    exact returns_parse hd hround
  cases k with
  | nicTx len =>
    cases base with
    | dec => exact hplain rfl (hr rfl)
    | hex =>
      have hlen : Reads (AtText mem) (uintField ", len=" 16) _ _ _ :=
        reads_uintField (by decide) (.inr rfl) hd
      exact (hlen.map nicTx).returns (fieldEnd_append rfl _)
  | nicRx port len =>
    obtain ⟨rfl, rfl⟩ := hr
    have htext : numText base.toNat 0 = numText 10 0 := by cases base <;> rfl
    refine hplain ?_ ⟨rfl, rfl⟩
    simp [bodyTextIn, bodyText, nicTrxText, htext, toStringInt]
  | networkEnqueue | networkDequeue | networkDrop => exact hd.elim
  | _ => exact hplain rfl hr

/-- Only these classes are read back. -/
theorem EventKind.readsBack_of_parse {k : EventKind} (hd : k.InDomain)
    (hv : AtText mem h (k.bodyTextIn base)) (hp : (k.parser h).1 = some k) :
    k.ReadsBack base := by
  have hplain : k.bodyTextIn base = k.bodyText → k.RoundTrips := by
    intro htext
    rw [htext] at hv
    exact roundTrips_of_parse hd hv hp
  cases k with
  | nicTx len =>
    rintro rfl
    exact hplain rfl
  | nicRx port len =>
    obtain ⟨port', heq⟩ := yields_parseNicRx_length h _ hp
    obtain ⟨-, rfl⟩ := EventKind.nicRx.inj heq
    have htext : numText base.toNat 0 = numText 10 0 := by cases base <;> rfl
    refine hplain ?_
    simp [bodyTextIn, bodyText, nicTrxText, htext, toStringInt_of_nonneg hd.1]
  | networkEnqueue | networkDequeue | networkDrop => exact hd.elim
  | _ => exact hplain rfl

theorem Event.eventOf_lineIn_iff (he : e.InDomain) :
    Parser.eventStream.eventOf (e.lineIn base) = some e ↔ e.ReadsBack base := by
  have hend := fieldEnd_bodyTextIn base e.kind
  have hv : AtText [] (.ofLine (e.lineIn base) [kLineEnd])
      (e.headTextIn base ++ e.kind.bodyTextIn base) := atText_ofLine _ []
  constructor
  · intro hp
    have hid : base = .hex → e.parserIdentifier.toNat < 10 := by
      rintro rfl
      exact ident_lt_of_parseEvent hv hp
    rw [Event.headTextIn_eq hid] at hv
    obtain ⟨h', hv', hk⟩ := parseKind_of_parseEvent he.head hend hv hp
    rw [e.kind.parseKind_getName] at hk
    exact ⟨hid, EventKind.readsBack_of_parse he.kind hv' hk⟩
  · intro hr
    rw [Event.headTextIn_eq hr.ident] at hv
    refine returns_parseEvent he.head hend ?_ _ hv
    rw [e.kind.parseKind_getName]
    exact EventKind.returns_parse_in he.kind hr.kind

end Reading

section Recorded

variable {base : BaseField} {e : Event} {es : List Event}

/-- A component without a newline. -/
def Event.CleanComponent (e : Event) : Prop :=
  ∀ pc f c, e.kind = .hostCall pc f (some c) → kLineEnd ∉ c

theorem EventKind.lineEnd_not_mem_bodyTextIn {k : EventKind} (hd : k.InDomain)
    (hcomp : ∀ pc f c, k = .hostCall pc f (some c) → kLineEnd ∉ c) :
    kLineEnd ∉ k.bodyTextIn base := by
  have hnum : ∀ (b : BaseField) (n : ℕ), kLineEnd ∉ numText b.toNat n := fun b n => by
    cases b
    · exact lineEnd_not_mem_numText (by decide) (by decide)
    · exact lineEnd_not_mem_numText (by decide) (by decide)
  have hten := hnum .dec
  have hsixteen := hnum .hex
  have hbool : ∀ x, kLineEnd ∉ boolToString x := by decide
  unfold BaseField.toNat at hten hsixteen
  cases k with
  | hostCall pc func comp =>
    obtain ⟨-, ⟨f, rfl, -, hf⟩, c, rfl⟩ := hd
    have hclass : kLineEnd ∉ f := fun hmem => absurd (hf _ hmem) (by decide)
    simp only [bodyTextIn, bodyText, fieldText, Option.getD_some, List.mem_append, not_or]
    exact ⟨⟨by decide, hsixteen _⟩, ⟨by decide, hclass⟩, by decide, hcomp pc _ c rfl⟩
  | nicRx port len =>
    have hport : kLineEnd ∉ toStringInt port := by
      rw [toStringInt_of_nonneg hd.1]
      exact hten _
    simp only [bodyTextIn, fieldText, List.mem_append, not_or]
    exact ⟨⟨by decide, hnum _ _⟩, ⟨by decide, by decide⟩, by decide, hport⟩
  | simSendSync | simProcInEvent | hostMmioImRespPoW | hostClearInt | hostPostInt =>
    exact List.not_mem_nil
  | networkEnqueue | networkDequeue | networkDrop => exact hd.elim
  | _ =>
    simp only [bodyTextIn, bodyText, hostMmioText, hostAddrSizeText, nicMmioText, fieldText,
      toString10, List.mem_append, not_or]
    and_intros <;> first | exact hten _ | exact hsixteen _ | exact hnum _ _ | exact hbool _ | decide

theorem Event.lineIn_spec (he : e.InDomain) (hcomp : e.CleanComponent) :
    e.lineIn base ≠ [] ∧ kLineEnd ∉ e.lineIn base := by
  have hkind : kLineEnd ∉ e.kind.getName := fun h =>
    absurd (e.kind.getName_spec.2 _ h) (by decide)
  have hname : kLineEnd ∉ e.parserName := fun h => absurd (he.head.name_class _ h) (by decide)
  have hident : kLineEnd ∉ numText base.toNat e.parserIdentifier.toNat := by
    cases base
    · exact lineEnd_not_mem_numText (by decide) (by decide)
    · exact lineEnd_not_mem_numText (by decide) (by decide)
  have hts : kLineEnd ∉ toString10 e.timestamp.toNat :=
    lineEnd_not_mem_numText (by decide) (by decide)
  refine ⟨by simp [lineIn, headTextIn, e.kind.getName_spec.1], ?_⟩
  simp only [lineIn, headTextIn, fieldText, List.mem_append, not_or]
  exact ⟨⟨hkind, ⟨by decide, hident⟩, ⟨by decide, hname⟩, by decide, hts⟩,
    EventKind.lineEnd_not_mem_bodyTextIn he.kind hcomp⟩

/-- What a scan of every line makes of a file of as many lines as events. -/
theorem filterMap_eq_iff_forall₂ {α β : Type} {f : α → Option β} {ls : List α} {es : List β}
    (hlength : ls.length = es.length) :
    ls.filterMap f = es ↔ List.Forall₂ (fun l e => f l = some e) ls es := by
  induction ls generalizing es with
  | nil =>
    obtain rfl := List.eq_nil_of_length_eq_zero hlength.symm
    simp
  | cons l ls ih =>
    cases es with
    | nil => cases hlength
    | cons e es =>
      have hrest := ih (Nat.succ.inj hlength)
      rw [List.forall₂_cons, ← hrest]
      cases hl : f l with
      | none =>
        rw [List.filterMap_cons_none hl]
        refine iff_of_false (fun heq => ?_) (fun h => by cases h.1)
        have hle := List.length_filterMap_le f ls
        rw [heq, List.length_cons, List.length_cons] at *
        omega
      | some b =>
        rw [List.filterMap_cons_some hl, List.cons.injEq, Option.some.injEq]

/-- The events behind some others, each in the base that the ones before it leave. -/
def ReplayFrom (base : BaseField) (es : List Event) : Prop :=
  ∀ es₁ e es₂, es = es₁ ++ e :: es₂ →
    e.ReadsBack (es₁.foldl (fun base e => e.kind.setsBase.getD base) base)

theorem replayFrom_nil : ReplayFrom base [] := by
  intro es₁ e es₂ heq
  simp at heq

theorem replayFrom_cons : ReplayFrom base (e :: es) ↔
    e.ReadsBack base ∧ ReplayFrom (e.kind.setsBase.getD base) es := by
  constructor
  · exact fun h => ⟨h [] e es rfl, fun es₁ e' es₂ heq => h (e :: es₁) e' es₂ (by rw [heq]; rfl)⟩
  · rintro ⟨hfirst, hrest⟩ es₁ e' es₂ heq
    cases es₁ with
    | nil =>
      obtain ⟨rfl, -⟩ := List.cons.inj heq
      exact hfirst
    | cons first es₁ =>
      obtain ⟨rfl, heq'⟩ := List.cons.inj heq
      exact hrest es₁ e' es₂ heq'

theorem forall₂_recordedLines (hes : ∀ e ∈ es, e.InDomain) :
    List.Forall₂ (fun l e => Parser.eventStream.eventOf l = some e) (recordedLines base es) es ↔
      ReplayFrom base es := by
  induction es generalizing base with
  | nil => exact iff_of_true .nil replayFrom_nil
  | cons e es ih =>
    rw [recordedLines, List.forall₂_cons, replayFrom_cons,
      Event.eventOf_lineIn_iff (hes e List.mem_cons_self),
      ih fun e' he' => hes e' (List.mem_cons_of_mem e he')]

theorem length_recordedLines (base : BaseField) (es : List Event) :
    (recordedLines base es).length = es.length := by
  induction es generalizing base with
  | nil => rfl
  | cons e es ih => simp [recordedLines, ih]

/-- A file that a printer wrote for some events: its lines, which are the events again if they are
all read back. -/
structure Records (es : List Event) (content : Bytes) (ls : List Bytes) : Prop where
  lines : ∀ l ∈ ls, l ≠ [] ∧ kLineEnd ∉ l
  content : content = ls.flatMap (· ++ [kLineEnd])
  replays : ls.filterMap Parser.eventStream.eventOf = es ↔ ReplayFrom .dec es

theorem Records.lines_eq {content : Bytes} {ls : List Bytes} (h : Records es content ls) :
    Columbo.lines kLineEnd content = ls := by
  rw [h.content, lines_flatMap h.lines]

/-- Such a file is read as a whole, if its lines are shorter than the block. -/
theorem Records.deliverable {content : Bytes} {ls : List Bytes} (h : Records es content ls)
    {B : ℕ} (hfits : ∀ l ∈ ls, l.length < B) : ReaderBuffer.Deliverable B content := by
  rw [h.content]
  have hlines := h.lines
  clear h
  induction ls with
  | nil => exact .blank 0
  | cons l ls ih =>
    have hstarts : StartsLine kLineEnd ((l :: ls).flatMap (· ++ [kLineEnd])) 0 l
        (ls.flatMap (· ++ [kLineEnd])) :=
      ⟨by simp, (hlines l List.mem_cons_self).1, (hlines l List.mem_cons_self).2⟩
    refine .line hstarts ?_ (ih (fun l' hl' => hfits l' (List.mem_cons_of_mem l hl'))
      fun l' hl' => hlines l' (List.mem_cons_of_mem l hl'))
    have hlt := hfits l List.mem_cons_self
    omega

/-- A file of host and NIC events. -/
theorem records_host (hes : ∀ e ∈ es, e.InDomain ∧ e.CleanComponent) :
    Records es (printAll es .fresh).text (recordedLines .dec es) := by
  have hplain : ∀ e ∈ es, e.kind.isNetwork = false ∧ e.kind.NonnegInts := fun e he =>
    ⟨(hes e he).1.kind.isNetwork, (hes e he).1.kind.nonnegInts⟩
  obtain ⟨c, hprints⟩ := prints_recordedLines hplain .dec
  have hlines : ∀ (base : BaseField), ∀ l ∈ recordedLines base es, l ≠ [] ∧ kLineEnd ∉ l := by
    clear hplain hprints
    induction es with
    | nil => simp [recordedLines]
    | cons e es ih =>
      intro base
      obtain ⟨hdomain, hclean⟩ := hes e List.mem_cons_self
      exact List.forall_mem_cons.mpr ⟨Event.lineIn_spec hdomain hclean,
        ih (fun e' he' => hes e' (List.mem_cons_of_mem e he')) _⟩
  refine ⟨hlines .dec, hprints.text_fresh, ?_⟩
  rw [filterMap_eq_iff_forall₂ (length_recordedLines .dec es),
    forall₂_recordedLines fun e he => (hes e he).1]

/-- Network events leave the stream in base ten, so that all of them are read back. -/
theorem replayFrom_network (hes : ∀ e ∈ es, ∃ net, e.NetworkInDomain net) :
    ReplayFrom .dec es := by
  induction es with
  | nil => exact replayFrom_nil
  | cons e es ih =>
    obtain ⟨net, he⟩ := hes e List.mem_cons_self
    have hkind : e.kind.ReadsBack .dec := by
      rcases he.kind with h | h | h <;> rw [h] <;> trivial
    have hsets : e.kind.setsBase = net.ethernetHeader.map fun _ => .dec := by
      rcases he.kind with h | h | h <;> rw [h] <;> rfl
    have hbase : e.kind.setsBase.getD .dec = .dec := by
      rw [hsets]
      cases net.ethernetHeader <;> rfl
    refine replayFrom_cons.mpr ⟨⟨fun heq => (by cases heq), hkind⟩, ?_⟩
    rw [hbase]
    exact ih fun e' he' => hes e' (List.mem_cons_of_mem e he')

/-- A file of network events. -/
theorem records_network (hes : ∀ e ∈ es, ∃ net, e.NetworkInDomain net) :
    Records es (printAll es .fresh).text (es.map Event.line) := by
  have hline : ∀ e ∈ es, (e.line ≠ [] ∧ kLineEnd ∉ e.line) ∧
      Parser.eventStream.eventOf e.line = some e := by
    intro e he
    obtain ⟨net, hnet⟩ := hes e he
    have htext := hnet.prints_display.text_fresh
    refine ⟨⟨?_, hnet.lineEnd_not_mem_line⟩, hnet.parse [] _ ?_⟩
    · rw [Event.line, htext]
      simp [Event.headText, e.kind.getName_spec.1]
    · rw [← htext]
      exact atText_ofLine e.line []
  refine ⟨List.forall_mem_map.mpr fun e he => (hline e he).1, ?_,
    iff_of_true ?_ (replayFrom_network hes)⟩
  · rw [(prints_printAll hes).text_fresh, List.flatMap_map]
  · rw [filterMap_eq_iff_forall₂ (by simp), List.forall₂_map_left_iff, List.forall₂_same]
    exact fun e he => (hline e he).2

end Recorded

/-- The numbers of an event that are read as an `int`. -/
def Event.NonnegInts (e : Event) : Prop :=
  e.kind.NonnegInts ∧ ∀ net, e.network = some net → 0 ≤ net.node ∧ 0 ≤ net.device

section Accepted

variable {names : UInt64 → Bytes → Bytes → Prop}

/-- The events that a host or a NIC can produce are those that its parser accepts, but for the
numbers that wrap around. -/
theorem EventKind.Accepted.inDomain {k : EventKind} (h : k.Accepted names (· = false))
    (hints : k.NonnegInts)
    (hnames : ∀ pc f c, names pc f c → f ≠ [] ∧ ∀ x ∈ f, isAlnumDotBar x = true) :
    k.InDomain := by
  have hnumbers := h.numbers
  have hnamed := h.named
  have hnetwork := h.network
  cases k with
  | hostCall pc func comp =>
    obtain ⟨f, c, rfl, rfl, hcall⟩ := hnamed
    exact ⟨hnumbers pc List.mem_cons_self, ⟨f, rfl, hnames pc f c hcall⟩, c, rfl⟩
  | hostMmioR | hostMmioW =>
    simp only [EventKind.numbers, List.forall_mem_cons] at hnumbers
    obtain ⟨hid, haddr, hsize, hoffset, -⟩ := hnumbers
    exact ⟨hid, haddr, hsize, hints, hoffset⟩
  | nicRx port len => exact ⟨hints, hnumbers len List.mem_cons_self⟩
  | simSendSync | simProcInEvent | hostMmioImRespPoW | hostClearInt | hostPostInt | nicMsix =>
    trivial
  | networkEnqueue | networkDequeue | networkDrop => cases hnetwork
  | _ => simpa [EventKind.numbers, InDomain, Small] using hnumbers

theorem NetworkEvent.inDomain {net : NetworkEvent} (hnumbers : ∀ n ∈ net.numbers, Small n)
    (hnode : 0 ≤ net.node) (hdevice : 0 ≤ net.device) : net.InDomain where
  node := hnode
  device := hdevice
  uid := hnumbers _ (by simp [numbers])
  payload := hnumbers _ (by simp [numbers])
  eth x hx := hnumbers _ (by simp [numbers, Option.mem_def.mp hx])
  ip x hx := hnumbers _ (by simp [numbers, Option.mem_def.mp hx])

/-- A parser whose name and identifier can be read back. -/
structure LogParser.Readable (parser : LogParser) : Prop where
  name_ne : parser.name ≠ []
  name_class : parser.name.all isSourceName = true
  ident : Small parser.identifier

theorem LogParser.Readable.head {parser : LogParser} (h : parser.Readable) {e : Event}
    (hsigned : e.parserName = parser.name ∧ e.parserIdentifier = parser.identifier)
    (hts : Small e.timestamp) : e.HeadInDomain where
  name_ne := hsigned.1 ▸ h.name_ne
  name_class := hsigned.1 ▸ List.all_eq_true.mp h.name_class
  ident_lt := hsigned.2 ▸ h.ident
  ts_lt := hts

/-- The names of symbols and components can be written on one line and the symbols read back. -/
def PrintableSymbols (symbolTables : List (SymsFilter × Bytes)) : Prop :=
  ∀ t ∈ symbolTables, kLineEnd ∉ t.2 ∧ ∀ address name, t.1.filter address = some name →
    name ≠ [] ∧ ∀ c ∈ name, isAlnumDotBar c = true

/-- An event of a host that its parser accepts. -/
theorem Parser.Accepts.hostInDomain {parser : Gem5Parser} {ev : Event}
    (h : (Parser.gem5 parser).Accepts ev) (hparser : parser.toLogParser.Readable)
    (hsymbols : PrintableSymbols parser.symbolTables) (hints : ev.NonnegInts) :
    ev.InDomain ∧ ev.CleanComponent := by
  have hsymbol : ∀ pc f c, parser.names pc f c →
      (f ≠ [] ∧ ∀ x ∈ f, isAlnumDotBar x = true) ∧ kLineEnd ∉ c := by
    intro pc f c hnames
    unfold Gem5Parser.names TraceEnvironment.symtableFilter at hnames
    obtain ⟨t, ht, hfound⟩ := List.exists_of_findSome?_eq_some hnames
    obtain ⟨name, hfilter, heq⟩ := Option.map_eq_some_iff.mp hfound
    obtain ⟨rfl, rfl⟩ := Prod.mk.inj heq
    exact ⟨(hsymbols t ht).2 pc name hfilter, (hsymbols t ht).1⟩
  refine ⟨⟨hparser.head h.signed h.timestamp,
    h.kind.inDomain hints.1 fun pc f c hnames => (hsymbol pc f c hnames).1⟩, ?_⟩
  intro pc func c hkind
  have hnamed := h.kind.named
  rw [hkind] at hnamed
  obtain ⟨f, c', -, hc, hnames⟩ := hnamed
  obtain rfl := Option.some.inj hc
  exact (hsymbol pc f c hnames).2

/-- An event of a NIC that its parser accepts. -/
theorem Parser.Accepts.nicInDomain {parser : LogParser} {ev : Event}
    (h : (Parser.nicBm parser).Accepts ev) (hparser : parser.Readable) (hints : ev.NonnegInts) :
    ev.InDomain ∧ ev.CleanComponent := by
  refine ⟨⟨hparser.head h.signed h.timestamp, h.kind.inDomain hints.1 fun _ _ _ => False.elim⟩, ?_⟩
  intro pc func c hkind
  have hnamed := h.kind.named
  rw [hkind] at hnamed
  obtain ⟨f, c', -, -, hnames⟩ := hnamed
  exact hnames.elim

/-- An event of a network simulator that its parser accepts. -/
theorem Parser.Accepts.networkInDomain {parser : LogParser} {ev : Event}
    (h : (Parser.ns3 parser).Accepts ev) (hparser : parser.Readable) (hints : ev.NonnegInts) :
    ∃ net, ev.NetworkInDomain net := by
  have hhead := hparser.head h.signed h.timestamp
  have hnumbers := h.kind.numbers
  have hnetwork : ev.kind.isNetwork = true := h.kind.network
  obtain ⟨-, hnet⟩ := hints
  unfold Event.network at hnet
  cases hkind : ev.kind with
  | networkEnqueue net =>
    rw [hkind] at hnumbers hnet
    obtain ⟨hnode, hdevice⟩ := hnet net rfl
    exact ⟨net, hhead, .inl hkind, NetworkEvent.inDomain hnumbers hnode hdevice⟩
  | networkDequeue net =>
    rw [hkind] at hnumbers hnet
    obtain ⟨hnode, hdevice⟩ := hnet net rfl
    exact ⟨net, hhead, .inr (.inl hkind), NetworkEvent.inDomain hnumbers hnode hdevice⟩
  | networkDrop net =>
    rw [hkind] at hnumbers hnet
    obtain ⟨hnode, hdevice⟩ := hnet net rfl
    exact ⟨net, hhead, .inr (.inr hkind), NetworkEvent.inDomain hnumbers hnode hdevice⟩
  | _ =>
    rw [hkind] at hnetwork
    cases hnetwork

end Accepted

namespace Main

variable {B : ℕ} {args : Arguments} {p : Pipe}

/-- The file that a printer writes in the place of the spanner. -/
def recorded (B : ℕ) (args : Arguments) (p : Pipe) : Bytes :=
  (printAll ((logPipelines args p).events B) .fresh).text

/-- The arguments of a run over the recorded files, without bounds. -/
def replaying (B : ℕ) (args : Arguments) : Arguments :=
  { args with
    content := recorded B args
    tsLowerBound := none
    tsUpperBound := none }

/-- The events of an event stream that reach the spanner. -/
theorem events_eventStreamPipelines (h : ReaderBuffer.Deliverable B (args.content p)) :
    (eventStreamPipelines args p).events B =
      ((lines kLineEnd (args.content p)).filterMap Parser.eventStream.eventOf).filter fun ev =>
        EventTimestampFilter.handel [timestampBounds (SimStringUtils.parseUintTrimCopy 10)
          args.tsLowerBound args.tsUpperBound] ev.timestamp := by
  refine (TracePipeline.events_of_deliverable h).trans ?_
  refine (Handler.runAll_ofFilter [_]).trans (List.filter_congr fun ev _ => ?_)
  simp

/-- Without bounds every event passes. -/
theorem passes_unbounded (ts : UInt64) : EventTimestampFilter.handel
    [timestampBounds (SimStringUtils.parseUintTrimCopy 10) none none] ts = true := by
  simp [EventTimestampFilter.handel, timestampBounds, le_kMaxUpperBound, kMinLowerBound_le]

/-- The events of an ns-3 log can be written, if no number wrapped around. -/
theorem networkInDomain_ns3 (hints : ∀ ev ∈ (logPipelines args .ns3).events B, ev.NonnegInts) :
    ∀ ev ∈ (logPipelines args .ns3).events B, ∃ net, ev.NetworkInDomain net := by
  have haccepts : ∀ ev ∈ (logPipelines args .ns3).events B, (logParser args .ns3).Accepts ev :=
    fun ev hev => TracePipeline.accepts_of_mem hev
  have hparser : LogParser.Readable ⟨bytes "NS3Parser", 5⟩ := ⟨by decide, by decide, by decide⟩
  exact fun ev hev => (haccepts ev hev).networkInDomain hparser (hints ev hev)

/-- The events that a pipeline over a raw log gets can be written, if no number wrapped around. -/
theorem inDomain_logPipelines (hsymbols : PrintableSymbols args.symbolTables)
    (hints : ∀ ev ∈ (logPipelines args p).events B, ev.NonnegInts) :
    (∀ ev ∈ (logPipelines args p).events B, ev.InDomain ∧ ev.CleanComponent) ∨
      ∀ ev ∈ (logPipelines args p).events B, ∃ net, ev.NetworkInDomain net := by
  have haccepts : ∀ ev ∈ (logPipelines args p).events B, (logParser args p).Accepts ev :=
    fun ev hev => TracePipeline.accepts_of_mem hev
  cases p with
  | hostClient =>
    have hparser : LogParser.Readable ⟨bytes "Gem5ClientParser", 2⟩ :=
      ⟨by decide, by decide, by decide⟩
    exact .inl fun ev hev => (haccepts ev hev).hostInDomain hparser hsymbols (hints ev hev)
  | hostServer =>
    have hparser : LogParser.Readable ⟨bytes "Gem5ServerParser", 1⟩ :=
      ⟨by decide, by decide, by decide⟩
    exact .inl fun ev hev => (haccepts ev hev).hostInDomain hparser hsymbols (hints ev hev)
  | nicClient =>
    have hparser : LogParser.Readable ⟨bytes "NicbmClientParser", 4⟩ :=
      ⟨by decide, by decide, by decide⟩
    exact .inl fun ev hev => (haccepts ev hev).nicInDomain hparser (hints ev hev)
  | nicServer =>
    have hparser : LogParser.Readable ⟨bytes "NicbmServerParser", 3⟩ :=
      ⟨by decide, by decide, by decide⟩
    exact .inl fun ev hev => (haccepts ev hev).nicInDomain hparser (hints ev hev)
  | ns3 => exact .inr (networkInDomain_ns3 hints)

/-- A run over the recorded files hands a spanner the same events as the run over the raw logs,
if and only if every event is read back in the base that the ones before it left. For ns-3 it does
so always. -/
theorem replays_iff
    (hfits : ∀ l ∈ lines kLineEnd (recorded B args p), l.length < B)
    (hsymbols : PrintableSymbols args.symbolTables)
    (hints : ∀ ev ∈ (logPipelines args p).events B, ev.NonnegInts) :
    ((eventStreamPipelines (replaying B args) p).events B = (logPipelines args p).events B ↔
      ∀ es₁ e es₂, (logPipelines args p).events B = es₁ ++ e :: es₂ →
        e.ReadsBack (baseAfter es₁)) ∧
    (p = .ns3 →
      (eventStreamPipelines (replaying B args) p).events B = (logPipelines args p).events B) := by
  have hrecords : ∃ ls, Records ((logPipelines args p).events B) (recorded B args p) ls := by
    rcases inDomain_logPipelines hsymbols hints with hhost | hnetwork
    · exact ⟨_, records_host hhost⟩
    · exact ⟨_, records_network hnetwork⟩
  obtain ⟨ls, hls⟩ := hrecords
  rw [hls.lines_eq] at hfits
  have hevents : (eventStreamPipelines (replaying B args) p).events B = _ :=
    events_eventStreamPipelines (hls.deliverable hfits)
  have hiff : (eventStreamPipelines (replaying B args) p).events B =
      (logPipelines args p).events B ↔ ReplayFrom .dec ((logPipelines args p).events B) := by
    rw [hevents, List.filter_eq_self.mpr fun ev _ => passes_unbounded ev.timestamp]
    change (lines kLineEnd (recorded B args p)).filterMap _ = _ ↔ _
    rw [hls.lines_eq]
    exact hls.replays
  refine ⟨hiff, ?_⟩
  rintro rfl
  exact hiff.mpr (replayFrom_network (networkInDomain_ns3 hints))

/-- A register is read, and a packet of 64 bytes is sent. -/
def readThenPacket : Arguments where
  content _ :=
    bytes "main_time = 1: nicbm: read(off=0x1, len=4, val=0x2)\n" ++
    bytes "main_time = 2: nicbm: eth tx: len 64\n"
  chunks _ _ := 200
  typesToFilter := []
  blacklistFunctions := []
  symbolTables := []
  tsLowerBound := none
  tsUpperBound := none

def readAndPacket : List Event :=
  [⟨1, 4, bytes "NicbmClientParser", .nicMmioR 1 4 2⟩,
    ⟨2, 4, bytes "NicbmClientParser", .nicTx 64⟩]

/-- The length is written in base sixteen, in which it is read. -/
theorem replays_readThenPacket :
    (eventStreamPipelines (replaying 200 readThenPacket) .nicClient).events 200 = readAndPacket := by
  have hevents : (logPipelines readThenPacket .nicClient).events 200 = readAndPacket := by
    decide +kernel
  have hfits : ∀ l ∈ lines kLineEnd (recorded 200 readThenPacket .nicClient), l.length < 200 := by
    decide +kernel
  rw [← hevents]
  refine (replays_iff hfits (fun t ht => by cases ht) ?_).1.mpr ?_
  · rw [hevents]
    refine List.forall_mem_cons.mpr ⟨⟨trivial, fun net hnet => (by cases hnet)⟩, ?_⟩
    exact List.forall_mem_singleton.mpr ⟨trivial, fun net hnet => by cases hnet⟩
  · rw [hevents]
    change ReplayFrom .dec readAndPacket
    have hread : Event.ReadsBack .dec ⟨1, 4, bytes "NicbmClientParser", .nicMmioR 1 4 2⟩ :=
      ⟨fun heq => (by cases heq), trivial⟩
    have hpacket : Event.ReadsBack .hex ⟨2, 4, bytes "NicbmClientParser", .nicTx 64⟩ :=
      ⟨fun _ => (by decide), fun heq => by cases heq⟩
    exact replayFrom_cons.mpr ⟨hread, replayFrom_cons.mpr ⟨hpacket, replayFrom_nil⟩⟩

end Main

end Columbo
