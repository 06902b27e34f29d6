import Columbo.EventText

/-!
# Round trip of host and NIC events

What `ParseEvent` makes of a line that `Display` wrote to a fresh stream. Most
classes are read back as they were. Four classes write a number in one base and
read it in another one, so that only the numbers of one digit survive; `NicRx`
is built from the wrong arguments; and the component of a call is read only up
to the first byte that a symbol name cannot contain.
-/
namespace Columbo

section Numbers

variable {n : ℕ} {s : Bytes}

theorem toNat_toUInt64_of_le (hn : n ≤ ULONG_MAX) : n.toUInt64.toNat = n := by
  rw [Nat.toUInt64_eq]
  exact UInt64.toNat_ofNat_of_lt' (by unfold ULONG_MAX at hn; simp [UInt64.size]; omega)

theorem strtoul_le (base : ℕ) : strtoul base s ≤ ULONG_MAX := min_le_right _ _

/-- Hexadecimal digits read in base ten give a smaller number. -/
theorem value_takeWhile_lt (hn : 10 ≤ n) :
    Numeral.value 10 ((Numeral.numeral 16 n).takeWhile (· < 10)) < n :=
  Numeral.value_front_lt (by decide) (by decide) hn
    (List.takeWhile_append_dropWhile (p := (· < 10))).symm
    fun x hx => by simpa using List.mem_takeWhile_imp hx

/-- A number written in base sixteen and read in base ten has one digit. -/
theorem lt_ten_of_hex_read_dec {v : UInt64} (hs : StopsAlnum s)
    (hv : v = (strtoul 10 (numText 16 v.toNat ++ s)).toUInt64) : v.toNat < 10 := by
  by_contra hlt
  have hval := value_takeWhile_lt (n := v.toNat) (by omega)
  have hread : strtoul 10 (numText 16 v.toNat ++ s) < v.toNat := by
    rw [strtoul_numText (by decide) le_rfl hs]
    exact (min_le_left _ _).trans_lt hval
  have hnat := congrArg UInt64.toNat hv
  rw [toNat_toUInt64_of_le (strtoul_le 10)] at hnat
  omega

theorem lt_ten_of_hex_read_int {i : Int32} (hs : StopsAlnum s)
    (hv : i = Int32.ofNat (strtol (numText 16 i.toNatClampNeg ++ s))) : i.toNatClampNeg < 10 := by
  by_contra hlt
  have hval := value_takeWhile_lt (n := i.toNatClampNeg) (by omega)
  have hread : strtol (numText 16 i.toNatClampNeg ++ s) < i.toNatClampNeg := by
    rw [strtol_numText_base (by decide) le_rfl hs]
    exact (min_le_left _ _).trans_lt hval
  have hbound := i.toNatClampNeg_lt
  have hnat := congrArg Int32.toNatClampNeg hv
  rw [Int32.toNatClampNeg_ofNat_of_lt (by omega)] at hnat
  omega

/-- A number written in base ten and read in base sixteen has one digit. -/
theorem lt_ten_of_dec_read_hex {v : UInt64} (hs : StopsAlnum s)
    (hmax : strtoul 16 (numText 10 v.toNat ++ s) ≠ ULONG_MAX)
    (hv : v = (strtoul 16 (numText 10 v.toNat ++ s)).toUInt64) : v.toNat < 10 := by
  by_contra hlt
  have hval := Numeral.lt_value_numeral (b := 10) (c := 16) (n := v.toNat) (by decide) (by decide)
    (by omega)
  have hall : (Numeral.numeral 10 v.toNat).takeWhile (· < 16) = Numeral.numeral 10 v.toNat :=
    List.takeWhile_eq_self_iff.mpr fun d hd =>
      decide_eq_true ((Numeral.digit_lt (by decide) hd).trans (by decide))
  have hread : strtoul 16 (numText 10 v.toNat ++ s) = _ :=
    strtoul_numText (by decide) (by decide) hs
  rw [hall] at hread
  have hnat := congrArg UInt64.toNat hv
  rw [toNat_toUInt64_of_le (strtoul_le 16)] at hnat
  omega

theorem numText_of_lt_ten (hn : n < 10) : numText 16 n = numText 10 n := by
  rw [numText, numText, Numeral.numeral_of_lt hn, Numeral.numeral_of_lt (by omega)]

end Numbers

namespace EventKind

/-- The values an event of a host or a NIC may have: a call has a function name
as symbol tables know them and some component, numbers stay below the error
value of `strtoul`, and the signed ones are not negative. -/
def InDomain : EventKind → Prop
  | hostInstr pc => pc.toNat < ULONG_MAX
  | hostCall pc func comp =>
    pc.toNat < ULONG_MAX ∧ (∃ f, func = some f ∧ f ≠ [] ∧ ∀ c ∈ f, isAlnumDotBar c = true) ∧
      ∃ c, comp = some c
  | hostMmioCR id | hostMmioCW id | hostDmaC id => id.toNat < ULONG_MAX
  | hostMmioR id addr size bar offset | hostMmioW id addr size bar offset _ =>
    id.toNat < ULONG_MAX ∧ addr.toNat < ULONG_MAX ∧ size.toNat < ULONG_MAX ∧ 0 ≤ bar ∧
      offset.toNat < ULONG_MAX
  | hostDmaR id addr size | hostDmaW id addr size =>
    id.toNat < ULONG_MAX ∧ addr.toNat < ULONG_MAX ∧ size.toNat < ULONG_MAX
  | hostMsiX vec => vec.toNat < ULONG_MAX
  | hostConf dev func reg bytes data _ =>
    dev.toNat < ULONG_MAX ∧ func.toNat < ULONG_MAX ∧ reg.toNat < ULONG_MAX ∧
      bytes.toNat < ULONG_MAX ∧ data.toNat < ULONG_MAX
  | hostPciRW offset size _ => offset.toNat < ULONG_MAX ∧ size.toNat < ULONG_MAX
  | setIX intr => intr.toNat < ULONG_MAX
  | nicDmaI id addr len | nicDmaEx id addr len | nicDmaEn id addr len
  | nicDmaCR id addr len | nicDmaCW id addr len =>
    id.toNat < ULONG_MAX ∧ addr.toNat < ULONG_MAX ∧ len.toNat < ULONG_MAX
  | nicMmioR off len val | nicMmioW off len val _ =>
    off.toNat < ULONG_MAX ∧ len.toNat < ULONG_MAX ∧ val.toNat < ULONG_MAX
  | nicTx len => len.toNat < ULONG_MAX
  | nicRx port len => 0 ≤ port ∧ len.toNat < ULONG_MAX
  | simSendSync | simProcInEvent | hostMmioImRespPoW | hostClearInt | hostPostInt | nicMsix .. => True
  | networkEnqueue _ | networkDequeue _ | networkDrop _ => False

/-- The events that are read back. -/
def RoundTrips : EventKind → Prop
  | hostCall _ _ comp => ∀ c ∈ comp, c ≠ [] ∧ ∀ x ∈ c, isAlnumDotBar x = true
  | hostMmioR _ _ _ bar _ | hostMmioW _ _ _ bar _ _ => bar.toNatClampNeg < 10
  | hostConf _ _ _ bytes _ _ => bytes.toNat < 10
  | hostPciRW _ size _ => size.toNat < 10
  | nicTx len => len.toNat < 10
  | nicRx port len => port = 0 ∧ len = 0
  | _ => True

theorem InDomain.isNetwork {k : EventKind} (h : k.InDomain) : k.isNetwork = false := by
  cases k with
  | networkEnqueue | networkDequeue | networkDrop => exact h.elim
  | _ => rfl

theorem InDomain.nonnegInts {k : EventKind} (h : k.InDomain) : k.NonnegInts := by
  cases k with
  | hostMmioR | hostMmioW => exact h.2.2.2.1
  | nicRx => exact h.1
  | _ => trivial

theorem fieldEnd_bodyText (k : EventKind) : FieldEnd k.bodyText := by
  have hcomma : ∀ (s : Bytes), s.head? = some (byte ',') → FieldEnd s := fun s hs => by
    simpa using fieldEnd_append hs []
  cases k <;> first | exact fieldEnd_nil | exact hcomma _ rfl

end EventKind

section Bodies

variable {mem : Bytes}

theorem reads_parseHostAddrSizeOp {id addr size : UInt64} (hid : id.toNat < ULONG_MAX)
    (haddr : addr.toNat < ULONG_MAX) (hsize : size.toNat < ULONG_MAX) :
    Reads (AtText mem) parseHostAddrSizeOp (hostAddrSizeText id addr size) (id, addr, size)
      FieldEnd := by
  refine (reads_uintField (by decide) (.inl rfl) hid).field ?_ rfl
  refine (reads_uintField (by decide) (.inr rfl) haddr).field ?_ rfl
  exact (reads_uintField (by decide) (.inr rfl) hsize).map _

theorem reads_parseNicMmio {off len val : UInt64} (hoff : off.toNat < ULONG_MAX)
    (hlen : len.toNat < ULONG_MAX) (hval : val.toNat < ULONG_MAX) :
    Reads (AtText mem) parseNicMmio (nicMmioText off len val) (off, len, val) FieldEnd := by
  refine (reads_uintField (by decide) (.inr rfl) hoff).field ?_ rfl
  refine (reads_uintField (by decide) (.inr rfl) hlen).field ?_ rfl
  exact (reads_uintField (by decide) (.inr rfl) hval).map _

/-- A number of one digit is the same text in both bases. -/
theorem reads_uintField_of_lt_ten {name : String} (hname : bytes name ≠ []) {b base : ℕ}
    (hb : b = 10 ∨ b = 16) (hbase : base = 10 ∨ base = 16) {n : UInt64} (hn : n.toNat < 10) :
    Reads (AtText mem) (uintField name base) (fieldText name (numText b n.toNat)) n FieldEnd := by
  have htext : numText b n.toNat = numText base n.toNat := by
    rcases hb with rfl | rfl <;> rcases hbase with rfl | rfl <;>
      simp only [numText_of_lt_ten hn]
  rw [htext]
  exact reads_uintField hname hbase (by unfold ULONG_MAX; omega)

theorem reads_hostMmioBar {bar : Int32} (hbar : 0 ≤ bar) (hlt : bar.toNatClampNeg < 10) :
    Reads (AtText mem) (intField ", bar=") (fieldText ", bar=" (numText 16 bar.toNatClampNeg)) bar
      FieldEnd := by
  rw [numText_of_lt_ten hlt]
  exact reads_intField (by decide) hbar

namespace EventKind

/-- The events that meet the condition are read back. -/
theorem returns_parse {k : EventKind} (hd : k.InDomain) (hr : k.RoundTrips) :
    Returns (AtText mem) k.parser k.bodyText k := by
  cases k with
  | hostInstr pc => exact ((reads_uintField (by decide) (.inr rfl) hd).map hostInstr).returns_nil
  | hostCall pc func comp =>
    obtain ⟨hpc, ⟨f, rfl, hf, hfc⟩, c, rfl⟩ := hd
    obtain ⟨hc, hcc⟩ := hr c rfl
    refine Reads.returns_nil ((reads_uintField (by decide) (.inr rfl) hpc).field ?_ rfl)
    refine (reads_textField (by decide) (by decide) hf hfc).field ?_ rfl
    exact (reads_textField (by decide) (by decide) hc hcc).map _
  | hostMmioCR id => exact ((reads_uintField (by decide) (.inl rfl) hd).map hostMmioCR).returns_nil
  | hostMmioCW id => exact ((reads_uintField (by decide) (.inl rfl) hd).map hostMmioCW).returns_nil
  | hostDmaC id => exact ((reads_uintField (by decide) (.inl rfl) hd).map hostDmaC).returns_nil
  | hostMsiX vec => exact ((reads_uintField (by decide) (.inl rfl) hd).map hostMsiX).returns_nil
  | setIX intr => exact ((reads_uintField (by decide) (.inr rfl) hd).map setIX).returns_nil
  | hostMmioR id addr size bar offset =>
    obtain ⟨hid, haddr, hsize, hbar, hoffset⟩ := hd
    refine Reads.returns_nil ((reads_parseHostAddrSizeOp hid haddr hsize).field ?_ rfl)
    refine (reads_hostMmioBar hbar hr).field ?_ rfl
    exact (reads_uintField (by decide) (.inr rfl) hoffset).map _
  | hostMmioW id addr size bar offset posted =>
    obtain ⟨hid, haddr, hsize, hbar, hoffset⟩ := hd
    simp only [bodyText, hostMmioText, List.append_assoc]
    refine Reads.returns_nil ((reads_parseHostAddrSizeOp hid haddr hsize).field ?_ rfl)
    refine (reads_hostMmioBar hbar hr).field ?_ rfl
    refine (reads_uintField (by decide) (.inr rfl) hoffset).field ?_ rfl
    exact (reads_boolField (by decide) posted).map _
  | hostDmaR id addr size =>
    obtain ⟨hid, haddr, hsize⟩ := hd
    exact ((reads_parseHostAddrSizeOp hid haddr hsize).map _).returns_nil
  | hostDmaW id addr size =>
    obtain ⟨hid, haddr, hsize⟩ := hd
    exact ((reads_parseHostAddrSizeOp hid haddr hsize).map _).returns_nil
  | hostConf dev func reg bytes data isRead =>
    obtain ⟨hdev, hfunc, hreg, -, hdata⟩ := hd
    refine Reads.returns_nil ((reads_uintField (by decide) (.inr rfl) hdev).field ?_ rfl)
    refine (reads_uintField (by decide) (.inr rfl) hfunc).field ?_ rfl
    refine (reads_uintField (by decide) (.inr rfl) hreg).field ?_ rfl
    refine (reads_uintField_of_lt_ten (by decide) (.inr rfl) (.inl rfl) hr).field ?_ rfl
    exact (reads_uintField (by decide) (.inr rfl) hdata).map _
  | hostPciRW offset size isRead =>
    refine Reads.returns_nil ((reads_uintField (by decide) (.inr rfl) hd.1).field ?_ rfl)
    exact (reads_uintField_of_lt_ten (by decide) (.inr rfl) (.inl rfl) hr).map _
  | nicMsix vec isX =>
    have hvec : vec.toUInt64.toNat < ULONG_MAX := by
      have := vec.toNat_lt
      rw [UInt16.toNat_toUInt64]
      unfold ULONG_MAX
      omega
    have hread : Reads (AtText mem) (uintField ", vec=" 10) _ _ _ :=
      reads_uintField (by decide) (.inl rfl) hvec
    have hmsix := hread.map fun v => nicMsix v.toUInt16 isX
    simpa [parser, bodyText, parseNicMsix, toString10] using hmsix.returns_nil
  | nicDmaI id addr len | nicDmaEx id addr len | nicDmaEn id addr len
  | nicDmaCR id addr len | nicDmaCW id addr len =>
    obtain ⟨hid, haddr, hlen⟩ := hd
    refine Reads.returns_nil ((reads_uintField (by decide) (.inl rfl) hid).field ?_ rfl)
    refine (reads_uintField (by decide) (.inr rfl) haddr).field ?_ rfl
    exact (reads_uintField (by decide) (.inr rfl) hlen).map _
  | nicMmioR off len val =>
    obtain ⟨hoff, hlen, hval⟩ := hd
    exact ((reads_parseNicMmio hoff hlen hval).map _).returns_nil
  | nicMmioW off len val posted =>
    obtain ⟨hoff, hlen, hval⟩ := hd
    refine Reads.returns_nil ((reads_parseNicMmio hoff hlen hval).field ?_ rfl)
    exact (reads_boolField (by decide) posted).map _
  | nicTx len =>
    have hlen : Reads (AtText mem) (uintField ", len=" 16) _ _ _ :=
      reads_uintField_of_lt_ten (by decide) (.inl rfl) (.inr rfl) hr
    exact (hlen.map nicTx).returns (by simpa using fieldEnd_append rfl [])
  | nicRx port len =>
    obtain ⟨rfl, rfl⟩ := hr
    simp only [bodyText, nicTrxText, List.append_assoc]
    refine Reads.returns_nil
      ((reads_uintField_of_lt_ten (by decide) (.inl rfl) (.inr rfl) (by decide)).field ?_ rfl)
    refine (reads_consumeAndTrimString (by decide)).seq ?_
    exact (reads_intField (by decide) (by decide)).map _
  | simSendSync | simProcInEvent | hostMmioImRespPoW | hostClearInt | hostPostInt =>
    exact fun _ _ => rfl
  | networkEnqueue | networkDequeue | networkDrop => exact hd.elim

section Converse

variable {h : LineHandler} {k : EventKind} {rest : Bytes}

/-- When the BAR that was read goes into the event, it has one digit. -/
theorem bar_lt_ten {bar : Int32} {f : Int32 → LineScan EventKind} (hrest : FieldEnd rest)
    (hv : AtText mem h (fieldText ", bar=" (numText 16 bar.toNatClampNeg) ++ rest))
    (hp : ((intField ", bar=" >>= f) h).1 = some k)
    (hf : ∀ b h', (f b h').1 = some k → b = bar) : bar.toNatClampNeg < 10 := by
  obtain ⟨b, h', hb, hp'⟩ := Scan.bind_eq_some hp
  obtain rfl := hf b h' hp'
  rw [fieldText, List.append_assoc] at hv
  have heq := eq_of_intField (by decide) hv (by rw [hb])
  rw [List.append_assoc] at heq
  exact lt_ten_of_hex_read_int hrest.stopsAlnum.append_lineEnd heq

theorem hexField_lt_ten {name : String} {n : UInt64} {f : UInt64 → LineScan EventKind}
    (hname : bytes name ≠ []) (hrest : FieldEnd rest)
    (hv : AtText mem h (fieldText name (numText 16 n.toNat) ++ rest))
    (hp : ((uintField name 10 >>= f) h).1 = some k)
    (hf : ∀ m h', (f m h').1 = some k → m = n) : n.toNat < 10 := by
  obtain ⟨m, h', hm, hp'⟩ := Scan.bind_eq_some hp
  obtain rfl := hf m h' hp'
  rw [fieldText, List.append_assoc] at hv
  have heq := (eq_of_uintField hname hv (by rw [hm])).2
  rw [List.append_assoc] at heq
  exact lt_ten_of_hex_read_dec hrest.stopsAlnum.append_lineEnd heq

theorem decField_lt_ten {name : String} {n : UInt64} {f : UInt64 → LineScan EventKind}
    (hname : bytes name ≠ []) (hrest : FieldEnd rest)
    (hv : AtText mem h (fieldText name (numText 10 n.toNat) ++ rest))
    (hp : ((uintField name 16 >>= f) h).1 = some k)
    (hf : ∀ m h', (f m h').1 = some k → m = n) : n.toNat < 10 := by
  obtain ⟨m, h', hm, hp'⟩ := Scan.bind_eq_some hp
  obtain rfl := hf m h' hp'
  rw [fieldText, List.append_assoc] at hv
  obtain ⟨hmax, heq⟩ := eq_of_uintField hname hv (by rw [hm])
  rw [List.append_assoc] at hmax heq
  exact lt_ten_of_dec_read_hex hrest.stopsAlnum.append_lineEnd hmax heq

/-- A text that is read back as a whole consists of accepted bytes. -/
theorem class_of_textField {name : String} {pred : UInt8 → Bool} {t : Bytes}
    (hname : bytes name ≠ []) (hv : AtText mem h (fieldText name t))
    (hp : (textField name pred h).1 = some t) : t ≠ [] ∧ ∀ c ∈ t, pred c = true := by
  obtain ⟨h', hv', hp'⟩ := (reads_consumeAndTrimString hname).bind_eq_some hv trivial hp
  obtain ⟨u, h'', hu, hp''⟩ := Scan.bind_eq_some hp'
  have hwhile : u = t.takeWhile pred := by
    simp only [extractAndSubstrUntil, hv'.rest_eq, Prod.mk.injEq, Option.some.injEq] at hu
    exact hu.1.symm
  by_cases hempty : u.isEmpty = true
  · rw [if_pos hempty] at hp''
    cases hp''
  · rw [if_neg hempty] at hp''
    obtain rfl : u = t := Option.some.inj hp''
    exact ⟨by simpa using hempty, List.takeWhile_eq_self_iff.mp hwhile.symm⟩

/-- Only the events that meet the condition are read back. -/
theorem roundTrips_of_parse (hd : k.InDomain) (hv : AtText mem h k.bodyText)
    (hp : (k.parser h).1 = some k) : k.RoundTrips := by
  cases k with
  | hostCall pc func comp =>
    obtain ⟨hpc, ⟨f, rfl, hf, hfc⟩, c, rfl⟩ := hd
    obtain ⟨h₁, hv₁, hp₁⟩ := (reads_uintField (by decide) (.inr rfl) hpc).bind_eq_some hv
      (fieldEnd_append rfl _) hp
    obtain ⟨h₂, hv₂, hp₂⟩ := (reads_textField (by decide) (by decide) hf hfc).bind_eq_some hv₁
      (by simpa using fieldEnd_append rfl []) hp₁
    obtain ⟨c', h₃, hc, hp₃⟩ := Scan.bind_eq_some hp₂
    have hcc : c' = c := by
      have heq := Option.some.inj hp₃
      simp only [hostCall.injEq, Option.some.injEq] at heq
      exact heq.2.2
    rw [hcc] at hc
    rintro _ ⟨⟩
    exact class_of_textField (by decide) hv₂ (by rw [hc])
  | hostMmioR id addr size bar offset =>
    obtain ⟨hid, haddr, hsize, -, -⟩ := hd
    obtain ⟨h₁, hv₁, hp₁⟩ := (reads_parseHostAddrSizeOp hid haddr hsize).bind_eq_some hv
      (fieldEnd_append rfl _) hp
    refine bar_lt_ten (by simpa using fieldEnd_append rfl []) hv₁ hp₁ fun b h' hb => ?_
    obtain ⟨o, h₂, -, ho⟩ := Scan.bind_eq_some hb
    have heq := Option.some.inj ho
    simp only [hostMmioR.injEq] at heq
    exact heq.2.2.2.1
  | hostMmioW id addr size bar offset posted =>
    obtain ⟨hid, haddr, hsize, -, -⟩ := hd
    simp only [bodyText, hostMmioText, List.append_assoc] at hv
    obtain ⟨h₁, hv₁, hp₁⟩ := (reads_parseHostAddrSizeOp hid haddr hsize).bind_eq_some hv
      (fieldEnd_append rfl _) hp
    refine bar_lt_ten (fieldEnd_append rfl _) hv₁ hp₁ fun b h' hb => ?_
    obtain ⟨o, h₂, -, ho⟩ := Scan.bind_eq_some hb
    obtain ⟨p, h₃, -, hp₃⟩ := Scan.bind_eq_some ho
    have heq := Option.some.inj hp₃
    simp only [hostMmioW.injEq] at heq
    exact heq.2.2.2.1
  | hostConf dev func reg bytes data isRead =>
    obtain ⟨hdev, hfunc, hreg, -, -⟩ := hd
    obtain ⟨h₁, hv₁, hp₁⟩ := (reads_uintField (by decide) (.inr rfl) hdev).bind_eq_some hv
      (fieldEnd_append rfl _) hp
    obtain ⟨h₂, hv₂, hp₂⟩ := (reads_uintField (by decide) (.inr rfl) hfunc).bind_eq_some hv₁
      (fieldEnd_append rfl _) hp₁
    obtain ⟨h₃, hv₃, hp₃⟩ := (reads_uintField (by decide) (.inr rfl) hreg).bind_eq_some hv₂
      (fieldEnd_append rfl _) hp₂
    refine hexField_lt_ten (by decide) (by simpa using fieldEnd_append rfl []) hv₃ hp₃
      fun b h' hb => ?_
    obtain ⟨d, h₄, -, hp₄⟩ := Scan.bind_eq_some hb
    have heq := Option.some.inj hp₄
    simp only [hostConf.injEq] at heq
    exact heq.2.2.2.1
  | hostPciRW offset size isRead =>
    obtain ⟨h₁, hv₁, hp₁⟩ := (reads_uintField (by decide) (.inr rfl) hd.1).bind_eq_some hv
      (by simpa using fieldEnd_append rfl []) hp
    refine hexField_lt_ten (by decide) fieldEnd_nil (by simpa using hv₁) hp₁ fun m h' hm => ?_
    have heq := Option.some.inj hm
    simp only [hostPciRW.injEq] at heq
    exact heq.2.1
  | nicTx len =>
    refine decField_lt_ten (by decide) (by simpa using fieldEnd_append rfl []) hv hp
      fun m h' hm => ?_
    have heq := Option.some.inj hm
    simpa using heq
  | nicRx port len =>
    obtain ⟨m, h₁, hm, hp₁⟩ := Scan.bind_eq_some hp
    obtain ⟨-, h₂, -, hp₂⟩ := Scan.bind_eq_some hp₁
    obtain ⟨q, h₃, -, hp₃⟩ := Scan.bind_eq_some hp₂
    have heq := Option.some.inj hp₃
    simp only [nicRx.injEq] at heq
    obtain ⟨hport, rfl⟩ := heq
    have hzero : Reads (AtText mem) (uintField ", len=" 16) (fieldText ", len=" (numText 10 0)) 0
        FieldEnd := by
      apply reads_uintField_of_lt_ten (n := 0) <;> decide
    simp only [bodyText, nicTrxText, List.append_assoc] at hv
    obtain ⟨h₄, hread, -⟩ := hzero h _ hv (fieldEnd_append rfl _)
    rw [hread, Prod.mk.injEq, Option.some.injEq] at hm
    exact ⟨by rw [← hport, ← hm.1]; rfl, rfl⟩
  | _ => trivial

end Converse

end EventKind

end Bodies

/-- The events of a host or a NIC that a simulator can produce. -/
structure Event.InDomain (e : Event) : Prop where
  head : e.HeadInDomain
  kind : e.kind.InDomain

/-- A line that `Display` wrote to a fresh stream is parsed to the same event
exactly for the events that meet the condition, whatever is behind the line in
memory. -/
theorem parseEvent_line_iff (e : Event) (mem : Bytes) (he : e.InDomain) :
    (parseEvent (.ofLine e.line (kLineEnd :: mem))).1 = some e ↔ e.kind.RoundTrips := by
  have hv : AtText mem (.ofLine e.line (kLineEnd :: mem)) (e.headText ++ e.kind.bodyText) := by
    rw [← e.line_eq he.kind.isNetwork he.kind.nonnegInts]
    exact atText_ofLine e.line mem
  have hend := e.kind.fieldEnd_bodyText
  constructor
  · intro hp
    obtain ⟨h', hv', hk⟩ := parseKind_of_parseEvent he.head hend hv hp
    rw [e.kind.parseKind_getName] at hk
    exact EventKind.roundTrips_of_parse he.kind hv' hk
  · intro hr
    refine returns_parseEvent he.head hend ?_ _ hv
    rw [e.kind.parseKind_getName]
    exact EventKind.returns_parse he.kind hr

/-- A call into a symbol table that the configurations name `Linuxvm-Symbols`. -/
def linuxCall : Event :=
  ⟨1000, 2, bytes "host-0",
    .hostCall 0xffffffff81600000 (some (bytes "__sys_sendto")) (some (bytes "Linuxvm-Symbols"))⟩

theorem linuxCall_inDomain : linuxCall.InDomain where
  head := ⟨by decide, List.all_eq_true.mp (by decide), by decide, by decide⟩
  kind := ⟨by decide, ⟨_, rfl, by decide, List.all_eq_true.mp (by decide)⟩, ⟨_, rfl⟩⟩

theorem parseEvent_linuxCall_line :
    (parseEvent (.ofLine linuxCall.line [kLineEnd])).1 = some linuxCall ↔
      linuxCall.kind.RoundTrips :=
  parseEvent_line_iff linuxCall [] linuxCall_inDomain

/-- The component of the call comes back as `Linuxvm`. -/
theorem parseEvent_linuxCall :
    linuxCall.InDomain ∧ (parseEvent (.ofLine linuxCall.line [kLineEnd])).1 ≠ some linuxCall :=
  ⟨linuxCall_inDomain, by decide +kernel⟩

end Columbo
