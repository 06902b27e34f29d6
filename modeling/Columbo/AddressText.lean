import Columbo.EventText

/-!
# MAC and IPv4 addresses in a line

A MAC address is written as six hexadecimal numbers of two digits, and leaves
the stream in base ten with blank fill. An IPv4 address is written as its four
bytes in base ten. Both are read back.
-/
namespace Columbo

section Mac

variable {mem : Bytes}

/-- The digits of one byte, with a leading zero where there is only one. -/
def macDigits (b : UInt8) : List ℕ :=
  List.replicate (2 - (numText 16 b.toNat).length) 0 ++ Numeral.numeral 16 b.toNat

def macByteText (b : UInt8) : Bytes := (macDigits b).map digitByte

/-- Bytes in the middle of an address, each with the colon in front of it. -/
def macTailText (bs : List UInt8) : Bytes := bs.flatMap fun b => byte ':' :: macByteText b

def macText (mac : MacAddress) : Bytes :=
  macByteText (List.Vector.head mac) ++ macTailText (List.Vector.tail mac).toList

theorem displayMacByte_eq (b : UInt8) (u : Bytes) (base : BaseField) (fill : UInt8) :
    displayMacByte b ⟨u, base, fill, 0⟩ = ⟨u ++ macByteText b, .hex, byte '0', 0⟩ := by
  have htext : macByteText b = List.replicate (2 - (numText 16 b.toNat).length) (byte '0') ++
      numText 16 b.toNat := by
    rw [macByteText, macDigits, List.map_append, List.map_replicate]
    rfl
  rw [htext]
  simp [displayMacByte, OStream.setfill, OStream.setw, OStream.hex, OStream.uint, OStream.put,
    BaseField.toNat]

theorem foldl_displayMacByte (bs : List UInt8) (u : Bytes) :
    bs.foldl (fun out b => displayMacByte b (out.str ":")) ⟨u, .hex, byte '0', 0⟩ =
      ⟨u ++ macTailText bs, .hex, byte '0', 0⟩ := by
  induction bs generalizing u with
  | nil => simp [macTailText]
  | cons b bs ih =>
    have hcolon : OStream.str ⟨u, .hex, byte '0', 0⟩ ":" = ⟨u ++ [byte ':'], .hex, byte '0', 0⟩ := by
      simp [OStream.str, OStream.put, bytes, byte]
    rw [List.foldl_cons, hcolon, displayMacByte_eq, ih]
    simp [macTailText]

theorem MacAddress.prints_display (mac : MacAddress) {a : BaseField} :
    Prints mac.display a (macText mac) .dec := by
  intro u
  simp only [MacAddress.display, displayMacByte_eq, foldl_displayMacByte]
  simp [OStream.setfill, OStream.dec, macText]

theorem digit_lt_of_mem_macDigits {b : UInt8} {d : ℕ} (h : d ∈ macDigits b) : d < 16 := by
  rcases List.mem_append.mp h with h | h
  · rw [List.eq_of_mem_replicate h]
    decide
  · exact Numeral.digit_lt (by decide) h

theorem value_macDigits (b : UInt8) : Numeral.value 16 (macDigits b) = b.toNat := by
  have hzero : ∀ k, Numeral.value 16 (List.replicate k 0) = 0 := by
    intro k
    induction k with
    | zero => rfl
    | succ k ih => rw [List.replicate_succ, Numeral.value_cons, ih]; simp
  rw [macDigits, Numeral.value_append, hzero, Numeral.value_numeral]
  simp

theorem reads_macByte (b : UInt8) :
    Reads (AtText mem) (parseUintTrim 16) (macByteText b) b.toUInt64 StopsAlnum := by
  have hne : macDigits b ≠ [] := by
    simp [macDigits, Numeral.numeral_ne_nil]
  have hlt := b.toNat_lt
  have hread : Reads (AtText mem) (parseUintTrim 16) (macByteText b)
      (Numeral.value 16 (macDigits b)).toUInt64 StopsAlnum :=
    reads_digits (.inr rfl) hne (fun d hd => digit_lt_of_mem_macDigits hd)
      (by rw [value_macDigits]; unfold ULONG_MAX; omega)
  rw [value_macDigits] at hread
  have heq : b.toNat.toUInt64 = b.toUInt64 := by
    apply UInt64.toNat.inj
    rw [Nat.toUInt64_eq, UInt64.toNat_ofNat_of_lt' (by simp [UInt64.size]; omega),
      UInt8.toNat_toUInt64]
  rwa [heq] at hread

/-- The loop over the bytes of an address: the last byte ends it, every other one
is followed by its colon and the rest. -/
theorem reads_parseMacBytes {left : ℕ} (v : List.Vector UInt8 (left + 1)) :
    Reads (AtText mem) (parseMacBytes (left + 1)) (macByteText v.head ++ macTailText v.tail.toList)
      v StopsAlnum := by
  induction left with
  | zero =>
    obtain ⟨b, w, rfl⟩ := v.exists_eq_cons
    obtain rfl : w = .nil := List.Vector.eq_nil w
    have hbyte : Reads (AtText mem) _ _ _ _ := reads_macByte b
    have hread := hbyte.map fun x => x.toUInt8 ::ᵥ .nil
    simpa [macTailText, parseMacBytes] using hread
  | succ left ih =>
    obtain ⟨b, w, rfl⟩ := v.exists_eq_cons
    obtain ⟨c, w', rfl⟩ := w.exists_eq_cons
    have htext : macTailText (c ::ᵥ w').toList = [byte ':'] ++ (macByteText c ++
        macTailText w'.toList) := by
      simp [macTailText]
    rw [parseMacBytes, List.Vector.head_cons, List.Vector.tail_cons, htext]
    refine (reads_macByte b).bind ?_ fun rest _ => ?_
    · refine (reads_consumeAndTrimChar (byte ':')).seq ?_
      have hread := (ih (c ::ᵥ w')).map fun others => b.toUInt64.toUInt8 ::ᵥ others
      simpa using hread
    · simp [show isAlnum (byte ':') = false by decide]

theorem reads_parseMacAddress (mac : MacAddress) :
    Reads (AtText mem) parseMacAddress (macText mac) mac StopsAlnum := by
  rw [← List.nil_append (macText mac)]
  refine (reads_trimL (t := []) (by simp)).bind (reads_parseMacBytes mac) fun rest _ => ?_
  have hne : macByteText (List.Vector.head mac) ≠ [] := by
    simp [macByteText, macDigits, Numeral.numeral_ne_nil]
  obtain ⟨c, cs, hc⟩ := List.exists_cons_of_ne_nil hne
  have hmem : c ∈ macByteText (List.Vector.head mac) := by simp [hc]
  obtain ⟨d, hd, rfl⟩ := List.mem_map.mp hmem
  simp only [macText, hc, List.cons_append, stopsAt_cons]
  exact isSpace_of_isAlnum (isAlnum_digitByte (digit_lt_of_mem_macDigits hd))

end Mac

section Ip

variable {mem : Bytes}

namespace Ipv4

/-- Byte `k` of an address, counted from the most significant one. -/
def octet (a : Ipv4) (k : ℕ) : ℕ := a.ip.toNat / 256 ^ (3 - k) % 256

theorem octet_lt (a : Ipv4) (k : ℕ) : a.octet k < 256 := Nat.mod_lt _ (by decide)

def text (a : Ipv4) : Bytes :=
  toString10 (a.octet 0) ++ (bytes "." ++ (toString10 (a.octet 1) ++ (bytes "." ++
    (toString10 (a.octet 2) ++ (bytes "." ++ toString10 (a.octet 3))))))

/-- Masking and shifting a byte out of an address. -/
theorem mask_shift (n k : ℕ) : ((255 <<< k) &&& n) >>> k = n / 2 ^ k % 256 := by
  rw [Nat.shiftRight_and_distrib, Nat.shiftLeft_shiftRight, Nat.and_comm,
    Nat.shiftRight_eq_div_pow]
  exact Nat.and_two_pow_sub_one_eq_mod (n / 2 ^ k) 8

theorem prints_display (a : Ipv4) {b : BaseField} : Prints a.display b a.text b := by
  have h₀ : ((0xff000000 &&& a.ip) >>> 24).toNat = a.octet 0 := mask_shift a.ip.toNat 24
  have h₁ : ((0x00ff0000 &&& a.ip) >>> 16).toNat = a.octet 1 := mask_shift a.ip.toNat 16
  have h₂ : ((0x0000ff00 &&& a.ip) >>> 8).toNat = a.octet 2 := mask_shift a.ip.toNat 8
  have h₃ : (0x000000ff &&& a.ip).toNat = a.octet 3 := by
    simpa [octet] using mask_shift a.ip.toNat 0
  intro u
  simp only [display, h₀, h₁, h₂, h₃]
  have hprints := (Prints.put (toString10 (a.octet 0))).comp
    ((Prints.putField (a := b) "." (toString10 (a.octet 1))).comp
      ((Prints.putField "." (toString10 (a.octet 2))).comp
        (Prints.putField "." (toString10 (a.octet 3)))))
  simpa [text, fieldText] using hprints u

/-- The shifted bytes add up to the address. -/
theorem sum_octets (a : Ipv4) :
    (((a.octet 0).toUInt64 <<< 24) + ((a.octet 1).toUInt64 <<< 16) +
      ((a.octet 2).toUInt64 <<< 8) + (a.octet 3).toUInt64).toUInt32 = a.ip := by
  have hip := a.ip.toNat_lt
  apply UInt32.toNat.inj
  simp only [UInt64.toNat_toUInt32, UInt64.toNat_add, UInt64.toNat_shiftLeft,
    Nat.shiftLeft_eq, octet]
  simp only [UInt64.toNat_ofNat]
  norm_num
  omega

end Ipv4

theorem reads_parseOctet {n : ℕ} (hn : n < 256) :
    Reads (AtText mem) parseOctet (toString10 n) n.toUInt64 StopsAlnum := by
  have hval : n.toUInt64.toNat = n := by
    rw [Nat.toUInt64_eq, UInt64.toNat_ofNat_of_lt' (by simp [UInt64.size]; omega)]
  have hread : Reads (AtText mem) _ _ _ _ := reads_parseUintTrim (.inl rfl) n.toUInt64
    (by rw [hval]; unfold ULONG_MAX; omega)
  rw [hval] at hread
  intro h rest hv hrest
  obtain ⟨h', hp, hv'⟩ := hread h rest hv hrest
  refine ⟨h', ?_, hv'⟩
  rw [parseOctet, Scan.bind_of_some hp, if_neg]
  · rfl
  · rw [gt_iff_lt, UInt64.lt_iff_toNat_lt, hval]
    simp
    omega

theorem reads_parseIpAddress (a : Ipv4) :
    Reads (AtText mem) parseIpAddress a.text a StopsAlnum := by
  have hdot : ∀ t : Bytes, StopsAlnum (bytes "." ++ t) := fun t => by
    simp [bytes, show isAlnum 46 = false by decide]
  have hchar : Reads (AtText mem) (consumeAndTrimChar (byte '.')) (bytes ".") () fun _ => True :=
    reads_consumeAndTrimChar (byte '.')
  refine (reads_parseOctet (a.octet_lt 0)).bind ?_ fun rest _ => by
    rw [List.append_assoc]; exact hdot _
  refine hchar.seq ?_
  refine (reads_parseOctet (a.octet_lt 1)).bind ?_ fun rest _ => by
    rw [List.append_assoc]; exact hdot _
  refine hchar.seq ?_
  refine (reads_parseOctet (a.octet_lt 2)).bind ?_ fun rest _ => by
    rw [List.append_assoc]; exact hdot _
  refine hchar.seq ?_
  have hoctet : Reads (AtText mem) _ _ _ _ := reads_parseOctet (a.octet_lt 3)
  have hlast := hoctet.map fun octet3 =>
    (⟨(((a.octet 0).toUInt64 <<< 24) + ((a.octet 1).toUInt64 <<< 16) +
      ((a.octet 2).toUInt64 <<< 8) + octet3).toUInt32⟩ : Ipv4)
  rw [a.sum_octets] at hlast
  exact hlast

/-- An address is written with decimal digits and dots. -/
theorem not_mem_ipText {a : Ipv4} {c : UInt8} (hnum : isNum c = false) (hdot : c ∉ bytes ".") :
    c ∉ a.text := by
  have hdigits : ∀ n, c ∉ toString10 n := fun n hc => by
    simp [isNum_of_mem_numText hc] at hnum
  simp [Ipv4.text, hdigits, hdot]

end Ip

end Columbo
