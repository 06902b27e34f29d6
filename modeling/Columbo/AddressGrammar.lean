import Columbo.AddressText
import Columbo.NumberParsing

/-!
# The grammar of addresses

An address is a sequence of numbers of at most eight bits with separators between
them. The parser of IPv4 addresses accepts exactly these. The parser of MAC
addresses takes any alphanumeric token for a number and keeps the low byte of its
value, so that it depends on the tokens whether it reads what is written.
-/
namespace Columbo

open Numeral

section Grammar

/-- A number of at most eight bits, written with all digits that there are. -/
def byteAt (base : ℕ) (t : Bytes) : Option ℕ :=
  let digits := digitRun base t
  if digits ≠ [] ∧ value base digits ≤ 255 then some (value base digits) else none

/-- The numbers at the front of a text, with a separator between any two. -/
def numbersAt (base : ℕ) (sep : UInt8) : (left : ℕ) → Bytes → Option (List ℕ)
  | 0, _ => some []
  | left + 1, t => do
    let number ← byteAt base t
    let behind := t.drop (digitRun base t).length
    if left = 0 then some [number]
    else if behind.head? = some sep then
      let others ← numbersAt base sep left behind.tail
      some (number :: others)
    else none

/-- The tokens that have a colon behind them, and the last one. -/
def tokensAt : (colons : ℕ) → Bytes → Option (List Bytes × Bytes)
  | colons, t =>
    let token := t.takeWhile isAlnum
    let behind := t.dropWhile isAlnum
    if token = [] then none
    else match colons with
      | 0 => some ([], token)
      | colons + 1 =>
        if behind.head? = some (byte ':') then
          (tokensAt colons behind.tail).map fun others => (token :: others.1, others.2)
        else none

/-- The value of the digits at the front of a token, which a `0x` may precede. -/
def hexValue (token : Bytes) : ℕ := value 16 (digitRun 16 (skip0x token))

/-- A token that is a hexadecimal number of at most eight bits. -/
def ByteToken (token : Bytes) : Prop :=
  (∀ c ∈ token, isDigitOf 16 c = true) ∧ value 16 (digitRun 16 token) ≤ 255

/-- A token that starts with such a number. -/
def StartsWithByte (token : Bytes) : Prop :=
  digitRun 16 token ≠ [] ∧ value 16 (digitRun 16 token) ≤ 255

instance (token : Bytes) : Decidable (ByteToken token) := inferInstanceAs (Decidable (_ ∧ _))

instance (token : Bytes) : Decidable (StartsWithByte token) := inferInstanceAs (Decidable (_ ∧ _))

/-- Where the last token is read as the number that it starts with: it is too large or
has the low byte of its digits. -/
def LastReadable (token : Bytes) : Prop :=
  if ULONG_MAX ≤ hexValue token then ¬StartsWithByte token
  else digitRun 16 token ≠ [] ∧ value 16 (digitRun 16 token) = hexValue token % 256

/-- Where a text is read as an address: either all tokens in front of the last one are
numbers of at most eight bits and the last one is readable, or one of them is too large. -/
def MacReadable (t : Bytes) : Prop :=
  ∀ tokens last, tokensAt 5 t = some (tokens, last) →
    if ∀ token ∈ tokens, ByteToken token then LastReadable last
    else ∃ token ∈ tokens ++ [last], ULONG_MAX ≤ hexValue token

def MacAddress.numbers (mac : MacAddress) : List ℕ := (List.Vector.toList mac).map UInt8.toNat

def Ipv4.numbers (a : Ipv4) : List ℕ := [a.octet 0, a.octet 1, a.octet 2, a.octet 3]

end Grammar

section Steps

variable {mem t : Bytes} {h : LineHandler} {α β : Type}

theorem AtText.advance_drop {k : ℕ} (hv : AtText mem h t) (hk : k ≤ t.length) :
    AtText mem (h.advance k) (t.drop k) := by
  have hsplit : AtText mem h (t.take k ++ t.drop k) := by rwa [List.take_append_drop]
  have hv' := hsplit.advance
  rwa [List.length_take, min_eq_left hk] at hv'

theorem consumeAndTrimChar_eq (c : UInt8) (hv : AtText mem h t) :
    consumeAndTrimChar c h = if t.head? = some c then (some (), h.advance 1) else (none, h) := by
  cases t with
  | nil =>
    simp [consumeAndTrimChar, LineHandler.isEmpty, hv.curLength_eq]
  | cons b u =>
    rw [consumeAndTrimChar, hv.isEmpty_eq (List.cons_ne_nil _ _), hv.1]
    simp

theorem takeWhile_isNum (t : Bytes) : (t.takeWhile isNum).length = (digitRun 10 t).length := by
  rw [← length_takeWhile_isDigitOf]
  congr 2
  funext c
  exact isDigitOf_ten.symm

theorem byteAt_eq_some_iff {base n : ℕ} :
    byteAt base t = some n ↔ digitRun base t ≠ [] ∧ n ≤ 255 ∧ value base (digitRun base t) = n := by
  rw [byteAt]
  split_ifs with hdigits
  · rw [Option.some.injEq]
    constructor
    · rintro rfl
      exact ⟨hdigits.1, hdigits.2, rfl⟩
    · exact fun hn => hn.2.2
  · refine ⟨nofun, ?_⟩
    rintro ⟨hne, hle, rfl⟩
    exact absurd ⟨hne, hle⟩ hdigits

/-- A decimal token is the run of digits, and an octet is what the grammar says. -/
theorem parseOctet_eq (hv : AtText mem h t) :
    match byteAt 10 t with
    | some n => parseOctet h = (some n.toUInt64, h.advance (digitRun 10 t).length)
    | none => (parseOctet h).1 = none := by
  have hclass : numberClass 10 = isNum := rfl
  have hval : strtoul 10 (t ++ kLineEnd :: mem) = min (value 10 (digitRun 10 t)) ULONG_MAX := by
    rw [strtoul_append_lineEnd, strtoul, if_neg (by decide)]
  have hparse := parseUintTrim_eq (.inl rfl) hv
  simp only [hclass, takeWhile_isNum, hval, List.length_eq_zero_iff] at hparse
  cases hbyte : byteAt 10 t with
  | some n =>
    obtain ⟨hne, hle, heq⟩ := byteAt_eq_some_iff.mp hbyte
    rw [heq, min_eq_left (by unfold ULONG_MAX; omega),
      if_neg (by unfold ULONG_MAX; rintro (hnil | hmax); exacts [hne hnil, by omega])] at hparse
    rw [parseOctet, Scan.bind_of_some hparse, if_neg]
    · rfl
    · rw [gt_iff_lt, UInt64.lt_iff_toNat_lt, Nat.toUInt64_eq,
        UInt64.toNat_ofNat_of_lt' (by simp [UInt64.size]; omega)]
      simp
      omega
  | none =>
    split_ifs at hparse with hrefused
    · rw [parseOctet, Scan.bind_of_none hparse]
    · have hlarge : 255 < value 10 (digitRun 10 t) := by
        by_contra hle
        have hsome := byteAt_eq_some_iff.mpr ⟨fun hnil => hrefused (.inl hnil), not_lt.mp hle, rfl⟩
        rw [hbyte] at hsome
        cases hsome
      rw [parseOctet, Scan.bind_of_some hparse, if_pos]
      · rfl
      · have hlt : min (value 10 (digitRun 10 t)) ULONG_MAX < 2 ^ 64 :=
          (min_le_right _ _).trans_lt (by decide)
        rw [gt_iff_lt, UInt64.lt_iff_toNat_lt, Nat.toUInt64_eq, UInt64.toNat_ofNat_of_lt' hlt]
        exact lt_min hlarge (by decide)

theorem numbersAt_one (base : ℕ) (sep : UInt8) (t : Bytes) :
    numbersAt base sep 1 t = (byteAt base t).map fun n => [n] := by
  rw [numbersAt]
  cases byteAt base t <;> rfl

theorem numbersAt_add_two (base : ℕ) (sep : UInt8) (left : ℕ) (t : Bytes) :
    numbersAt base sep (left + 2) t = (byteAt base t).bind fun n =>
      if (t.drop (digitRun base t).length).head? = some sep then
        (numbersAt base sep (left + 1) (t.drop (digitRun base t).length).tail).map (n :: ·)
      else none := by
  rw [numbersAt]
  cases byteAt base t with
  | none => rfl
  | some n =>
    simp only [Option.bind_some, Option.bind_eq_bind, Nat.succ_ne_zero, if_false]
    split_ifs with hsep
    · cases numbersAt base sep (left + 1) (t.drop (digitRun base t).length).tail <;> rfl
    · rfl

/-- One round of the grammar: an octet, its dot and what is parsed behind them. -/
theorem octet_dot {p : UInt64 → LineScan α} {g : α → List ℕ} {l : List ℕ} {left : ℕ}
    (hv : AtText mem h t)
    (hrest : ∀ n h' u, n ≤ 255 → AtText mem h' u → (p n.toUInt64 h').1.map g =
      (numbersAt 10 (byte '.') (left + 1) u).map fun others => l ++ n :: others) :
    ((do
      let octet ← parseOctet
      consumeAndTrimChar (byte '.')
      p octet : LineScan α) h).1.map g =
      (numbersAt 10 (byte '.') (left + 2) t).map (l ++ ·) := by
  have hoctet := parseOctet_eq hv
  rw [numbersAt_add_two]
  cases hbyte : byteAt 10 t with
  | none =>
    rw [hbyte] at hoctet
    have hnone : parseOctet h = (none, (parseOctet h).2) := Prod.ext hoctet rfl
    rw [Scan.bind_of_none hnone]
    rfl
  | some n =>
    rw [hbyte] at hoctet
    have hlength : (digitRun 10 t).length ≤ t.length := by
      rw [← takeWhile_isNum]
      exact (List.takeWhile_sublist _).length_le
    have hv' := hv.advance_drop hlength
    rw [Scan.bind_of_some hoctet, Option.bind_some]
    have hchar := consumeAndTrimChar_eq (byte '.') hv'
    split_ifs at hchar with hdot
    · rw [Scan.bind_of_some hchar, if_pos hdot]
      obtain ⟨u, hu⟩ := List.head?_eq_some_iff.mp hdot
      rw [hu] at hv' ⊢
      have hread := hrest n _ u (byteAt_eq_some_iff.mp hbyte).2.1
        (AtText.advance (t := [byte '.']) hv')
      rw [Option.map_map]
      exact hread
    · rw [Scan.bind_of_none hchar, if_neg hdot]
      rfl

theorem Ipv4.numbers_ofOctets {a b c d : ℕ} (ha : a ≤ 255) (hb : b ≤ 255) (hc : c ≤ 255)
    (hd : d ≤ 255) :
    Ipv4.numbers ⟨((a.toUInt64 <<< 24) + (b.toUInt64 <<< 16) + (c.toUInt64 <<< 8) +
      d.toUInt64).toUInt32⟩ = [a, b, c, d] := by
  have hsum : (((a.toUInt64 <<< 24) + (b.toUInt64 <<< 16) + (c.toUInt64 <<< 8) +
      d.toUInt64).toUInt32).toNat = a * 2 ^ 24 + b * 2 ^ 16 + c * 2 ^ 8 + d := by
    simp only [UInt64.toNat_toUInt32, UInt64.toNat_add, UInt64.toNat_shiftLeft, Nat.shiftLeft_eq,
      Nat.toUInt64_eq, UInt64.toNat_ofNat']
    simp only [UInt64.toNat_ofNat]
    norm_num
    omega
  simp only [Ipv4.numbers, Ipv4.octet, hsum, List.cons.injEq, and_true]
  omega

/-- An IPv4 address is read exactly where the grammar has one, as its numbers. -/
theorem parseIpAddress_eq (hv : AtText mem h t) :
    (parseIpAddress h).1.map Ipv4.numbers = numbersAt 10 (byte '.') 4 t := by
  have hlast : ∀ a b c h' u, a ≤ 255 → b ≤ 255 → c ≤ 255 → AtText mem h' u →
      ((do
        let octet3 ← parseOctet
        pure ⟨((a.toUInt64 <<< 24) + (b.toUInt64 <<< 16) + (c.toUInt64 <<< 8) +
          octet3).toUInt32⟩ : LineScan Ipv4) h').1.map Ipv4.numbers =
        (numbersAt 10 (byte '.') 1 u).map fun others => [a, b] ++ c :: others := by
    intro a b c h' u ha hb hc hv'
    have hoctet := parseOctet_eq hv'
    rw [numbersAt_one]
    cases hbyte : byteAt 10 u with
    | none =>
      rw [hbyte] at hoctet
      have hnone : parseOctet h' = (none, (parseOctet h').2) := Prod.ext hoctet rfl
      rw [Scan.bind_of_none hnone]
      rfl
    | some d =>
      rw [hbyte] at hoctet
      rw [Scan.bind_of_some hoctet, Scan.pure_apply, Option.map_some,
        Ipv4.numbers_ofOctets ha hb hc (byteAt_eq_some_iff.mp hbyte).2.1]
      rfl
  have hread : (parseIpAddress h).1.map Ipv4.numbers =
      (numbersAt 10 (byte '.') 4 t).map ([] ++ ·) :=
    octet_dot hv fun a h₁ u₁ ha hv₁ => octet_dot (l := [a]) hv₁ fun b h₂ u₂ hb hv₂ =>
      octet_dot (l := [a, b]) hv₂ fun c h₃ u₃ hc hv₃ => hlast a b c h₃ u₃ ha hb hc hv₃
  rw [hread]
  exact Option.map_id'

/-- What the parser makes of a token that a colon or the end of the address follows. -/
theorem parseUintTrim_token (hv : AtText mem h t) :
    parseUintTrim 16 h =
      if t.takeWhile isAlnum = [] ∨ ULONG_MAX ≤ hexValue (t.takeWhile isAlnum) then (none, h)
      else (some (hexValue (t.takeWhile isAlnum)).toUInt64,
        h.advance (t.takeWhile isAlnum).length) := by
  have hclass : numberClass 16 = isAlnum := rfl
  have hval : strtoul 16 (t ++ kLineEnd :: mem) =
      min (hexValue (t.takeWhile isAlnum)) ULONG_MAX := by
    rw [strtoul_append_lineEnd, ← strtoul_takeWhile (.inr rfl), strtoul, if_pos rfl, hclass,
      hexValue]
  have hparse := parseUintTrim_eq (.inr rfl) hv
  simp only [hclass, hval, List.length_eq_zero_iff, min_eq_right_iff] at hparse
  rw [hparse]
  split_ifs with hrefused
  · rfl
  · rw [min_eq_left]
    exact (not_le.mp fun hlarge => hrefused (.inr hlarge)).le

/-- All tokens have to be there and below the largest number; their low bytes are kept. -/
def lowBytes (tokens : List Bytes) : Option (List ℕ) :=
  if ∀ token ∈ tokens, hexValue token < ULONG_MAX then
    some (tokens.map fun token => hexValue token % 256)
  else none

theorem lowBytes_cons (token : Bytes) (tokens : List Bytes) :
    lowBytes (token :: tokens) = if hexValue token < ULONG_MAX then
      (lowBytes tokens).map (hexValue token % 256 :: ·) else none := by
  simp only [lowBytes, List.forall_mem_cons, List.map_cons]
  split_ifs with hall hhead htail htail <;> simp_all

theorem tokensAt_zero (t : Bytes) :
    tokensAt 0 t = if t.takeWhile isAlnum = [] then none else some ([], t.takeWhile isAlnum) := by
  rw [tokensAt]

theorem tokensAt_succ (colons : ℕ) (t : Bytes) :
    tokensAt (colons + 1) t = if t.takeWhile isAlnum = [] then none
      else if (t.dropWhile isAlnum).head? = some (byte ':') then
        (tokensAt colons (t.dropWhile isAlnum).tail).map fun others =>
          (t.takeWhile isAlnum :: others.1, others.2)
      else none := by
  rw [tokensAt]

theorem AtText.advance_takeWhile (pred : UInt8 → Bool) (hv : AtText mem h t) :
    AtText mem (h.advance (t.takeWhile pred).length) (t.dropWhile pred) := by
  have hsplit : AtText mem h (t.takeWhile pred ++ t.dropWhile pred) := by
    rwa [List.takeWhile_append_dropWhile]
  exact hsplit.advance

theorem parseMacBytes_one : parseMacBytes 1 = (do
    let byteBuf ← parseUintTrim 16
    pure (byteBuf.toUInt8 ::ᵥ .nil) : LineScan (List.Vector UInt8 1)) := rfl

theorem parseMacBytes_add_two (left : ℕ) : parseMacBytes (left + 2) = (do
    let byteBuf ← parseUintTrim 16
    consumeAndTrimChar (byte ':')
    let others ← parseMacBytes (left + 1)
    pure (byteBuf.toUInt8 ::ᵥ others) : LineScan (List.Vector UInt8 (left + 2))) := rfl

/-- The loop of the parser goes through the tokens and keeps their low bytes. -/
theorem parseMacBytes_eq {left : ℕ} (hv : AtText mem h t) :
    (parseMacBytes (left + 1) h).1.map (fun v => v.toList.map UInt8.toNat) =
      (tokensAt left t).bind fun tokens => lowBytes (tokens.1 ++ [tokens.2]) := by
  induction left generalizing h t with
  | zero =>
    have htoken := parseUintTrim_token hv
    rw [tokensAt_zero, parseMacBytes_one]
    by_cases hempty : t.takeWhile isAlnum = []
    · rw [if_pos (.inl hempty)] at htoken
      rw [Scan.bind_of_none htoken, if_pos hempty]
      rfl
    · rw [if_neg hempty, Option.bind_some, List.nil_append, lowBytes_cons]
      by_cases hfits : hexValue (t.takeWhile isAlnum) < ULONG_MAX
      · rw [if_neg (by simp [hempty, hfits])] at htoken
        rw [Scan.bind_of_some htoken, if_pos hfits]
        simp [lowBytes]
      · rw [if_pos (.inr (not_lt.mp hfits))] at htoken
        rw [Scan.bind_of_none htoken, if_neg hfits]
        rfl
  | succ left ih =>
    have htoken := parseUintTrim_token hv
    have hv' := hv.advance_takeWhile isAlnum
    have hchar := consumeAndTrimChar_eq (byte ':') hv'
    rw [tokensAt_succ, parseMacBytes_add_two]
    by_cases hempty : t.takeWhile isAlnum = []
    · rw [if_pos (.inl hempty)] at htoken
      rw [Scan.bind_of_none htoken, if_pos hempty]
      rfl
    rw [if_neg hempty]
    by_cases hfits : hexValue (t.takeWhile isAlnum) < ULONG_MAX
    · rw [if_neg (by simp [hempty, hfits])] at htoken
      rw [Scan.bind_of_some htoken]
      by_cases hcolon : (t.dropWhile isAlnum).head? = some (byte ':')
      · rw [if_pos hcolon] at hchar ⊢
        obtain ⟨u, hu⟩ := List.head?_eq_some_iff.mp hcolon
        rw [hu] at hv' ⊢
        have hothers := ih (AtText.advance (t := [byte ':']) hv')
        rw [Scan.bind_of_some hchar, Scan.bind_pure_fst, Option.map_map]
        have hcons : (fun v => v.toList.map UInt8.toNat) ∘
            (((hexValue (t.takeWhile isAlnum)).toUInt64.toUInt8) ::ᵥ ·) =
              (hexValue (t.takeWhile isAlnum) % 256 :: ·) ∘
                fun v : List.Vector UInt8 (left + 1) => v.toList.map UInt8.toNat := by
          funext v
          simp
        rw [hcons, ← Option.map_map]
        refine (congrArg (Option.map _) hothers).trans ?_
        rw [List.tail_cons]
        cases tokensAt left u with
        | none => rfl
        | some others =>
          rw [Option.map_some, Option.bind_some, Option.bind_some, List.cons_append,
            lowBytes_cons, if_pos hfits]
      · rw [if_neg hcolon] at hchar ⊢
        rw [Scan.bind_of_none hchar]
        rfl
    · rw [if_pos (.inr (not_lt.mp hfits))] at htoken
      rw [Scan.bind_of_none htoken]
      split_ifs
      · cases tokensAt left (t.dropWhile isAlnum).tail with
        | none => rfl
        | some others =>
          rw [Option.map_some, Option.bind_some, List.cons_append, lowBytes_cons, if_neg hfits]
          rfl
      · rfl

/-- The numbers that the grammar makes of the tokens. -/
def byteNumbers (tokens : List Bytes) (last : Bytes) : Option (List ℕ) :=
  if (∀ token ∈ tokens, ByteToken token) ∧ StartsWithByte last then
    some ((tokens ++ [last]).map fun token => value 16 (digitRun 16 token))
  else none

theorem byteNumbers_cons (token : Bytes) (tokens : List Bytes) (last : Bytes) :
    byteNumbers (token :: tokens) last = if ByteToken token then
      (byteNumbers tokens last).map (value 16 (digitRun 16 token) :: ·) else none := by
  simp only [byteNumbers, List.forall_mem_cons, List.cons_append, List.map_cons]
  split_ifs with hall hhead htail htail <;> simp_all

theorem digitRun_token (t : Bytes) : digitRun 16 (t.takeWhile isAlnum) = digitRun 16 t :=
  digitRun_takeWhile (fun _ hc => numberClass_of_isDigitOf (.inr rfl) hc) t

/-- A colon behind the digits ends the token as well. -/
theorem isDigitOf_of_colon (h : (t.drop (digitRun 16 t).length).head? = some (byte ':')) :
    ∀ c ∈ t.takeWhile isAlnum, isDigitOf 16 c = true := by
  induction t with
  | nil => cases h
  | cons c t ih =>
    cases hc : isDigitOf 16 c with
    | true =>
      have halnum : isAlnum c = true := numberClass_of_isDigitOf (.inr rfl) hc
      obtain ⟨d, hd⟩ := digitRun_cons_pos (s := t) hc
      rw [hd] at h
      rw [List.takeWhile_cons, if_pos halnum]
      exact List.forall_mem_cons.mpr ⟨hc, ih h⟩
    | false =>
      rw [digitRun_cons_neg hc] at h
      obtain rfl : c = byte ':' := Option.some.inj h
      intro b hb
      cases hb

/-- A token of digits ends where the digits end. -/
theorem drop_digitRun (hall : ∀ c ∈ t.takeWhile isAlnum, isDigitOf 16 c = true) :
    t.drop (digitRun 16 t).length = t.dropWhile isAlnum := by
  induction t with
  | nil => rfl
  | cons c t ih =>
    cases halnum : isAlnum c with
    | true =>
      rw [List.takeWhile_cons, if_pos halnum, List.forall_mem_cons] at hall
      obtain ⟨d, hd⟩ := digitRun_cons_pos (s := t) hall.1
      rw [hd, List.dropWhile_cons, if_pos halnum]
      exact ih hall.2
    | false =>
      have hc : isDigitOf 16 c = false := by
        rw [← Bool.not_eq_true]
        intro hc
        have hclass : isAlnum c = true := numberClass_of_isDigitOf (.inr rfl) hc
        rw [halnum] at hclass
        cases hclass
      rw [digitRun_cons_neg hc, List.dropWhile_cons, if_neg (by simp [halnum])]
      rfl

/-- The grammar goes through the same tokens. -/
theorem numbersAt_eq {left : ℕ} :
    numbersAt 16 (byte ':') (left + 1) t =
      (tokensAt left t).bind fun tokens => byteNumbers tokens.1 tokens.2 := by
  induction left generalizing t with
  | zero =>
    rw [numbersAt_one, tokensAt_zero, byteAt, ← digitRun_token]
    by_cases hempty : t.takeWhile isAlnum = []
    · rw [if_pos hempty, hempty]
      rfl
    · rw [if_neg hempty, Option.bind_some]
      simp only [byteNumbers, StartsWithByte]
      split_ifs <;> simp_all
  | succ left ih =>
    rw [numbersAt_add_two, tokensAt_succ]
    by_cases hempty : t.takeWhile isAlnum = []
    · have hnone : byteAt 16 t = none := by
        rw [byteAt, ← digitRun_token, hempty]
        rfl
      rw [hnone, if_pos hempty]
      rfl
    rw [if_neg hempty]
    by_cases htoken : ByteToken (t.takeWhile isAlnum)
    · have hbyte : byteAt 16 t = some (value 16 (digitRun 16 (t.takeWhile isAlnum))) := by
        rw [byteAt_eq_some_iff, ← digitRun_token]
        refine ⟨?_, htoken.2, rfl⟩
        obtain ⟨c, cs, hcs⟩ := List.exists_cons_of_ne_nil hempty
        obtain ⟨d, hd⟩ := digitRun_cons_pos (s := cs) (htoken.1 c (hcs ▸ List.mem_cons_self))
        rw [hcs, hd]
        exact List.cons_ne_nil _ _
      rw [hbyte, Option.bind_some, drop_digitRun htoken.1]
      split_ifs
      · rw [ih]
        cases tokensAt left (t.dropWhile isAlnum).tail with
        | none => rfl
        | some others =>
          rw [Option.map_some, Option.bind_some, Option.bind_some, byteNumbers_cons,
            if_pos htoken]
      · rfl
    · have hleft : (byteAt 16 t).bind (fun n =>
          if (t.drop (digitRun 16 t).length).head? = some (byte ':') then
            (numbersAt 16 (byte ':') (left + 1) (t.drop (digitRun 16 t).length).tail).map (n :: ·)
          else none) = none := by
        cases hbyte : byteAt 16 t with
        | none => rfl
        | some n =>
          obtain ⟨-, hle, rfl⟩ := byteAt_eq_some_iff.mp hbyte
          rw [Option.bind_some, if_neg]
          intro hcolon
          exact htoken ⟨isDigitOf_of_colon hcolon, by rwa [digitRun_token]⟩
      rw [hleft]
      split_ifs
      · cases tokensAt left (t.dropWhile isAlnum).tail with
        | none => rfl
        | some others => rw [Option.map_some, Option.bind_some, byteNumbers_cons, if_neg htoken]
      · rfl

/-- A token of digits is not changed by the C library. -/
theorem hexValue_of_digits {token : Bytes} (hall : ∀ c ∈ token, isDigitOf 16 c = true) :
    hexValue token = value 16 (digitRun 16 token) := by
  have hx : ∀ c, c = byte 'x' ∨ c = byte 'X' → isDigitOf 16 c = false := by
    rintro c (rfl | rfl) <;> decide
  rw [hexValue]
  unfold skip0x
  split
  · next z x c u =>
    rw [if_neg]
    rintro ⟨-, hprefix, -⟩
    have hdigit := hall x (by simp)
    rw [hx x hprefix] at hdigit
    cases hdigit
  · rfl

theorem lowBytes_eq_none_iff (tokens : List Bytes) :
    lowBytes tokens = none ↔ ∃ token ∈ tokens, ULONG_MAX ≤ hexValue token := by
  rw [lowBytes]
  split_ifs with hall
  · refine iff_of_false nofun ?_
    rintro ⟨token, hmem, hlarge⟩
    exact absurd (hall token hmem) (not_lt.mpr hlarge)
  · push Not at hall
    exact iff_of_true rfl hall

theorem lowBytes_singleton_iff (last : Bytes) :
    lowBytes [last] = byteNumbers [] last ↔ LastReadable last := by
  rw [lowBytes_cons, byteNumbers, LastReadable]
  by_cases hfits : hexValue last < ULONG_MAX
  · rw [if_pos hfits, if_neg (not_le.mpr hfits)]
    have hlow : hexValue last % 256 ≤ 255 := by omega
    split_ifs with hbyte
    · simp [lowBytes, hbyte.2.1, eq_comm]
    · refine iff_of_false nofun ?_
      rintro ⟨hne, heq⟩
      exact hbyte ⟨by simp, hne, heq ▸ hlow⟩
  · rw [if_neg hfits, if_pos (not_lt.mp hfits)]
    split_ifs with hbyte
    · exact iff_of_false nofun (not_not.mpr hbyte.2)
    · exact iff_of_true rfl fun hlast => hbyte ⟨by simp, hlast⟩

/-- The two results on one sequence of tokens. -/
theorem lowBytes_eq_byteNumbers_iff (tokens : List Bytes) (last : Bytes) :
    lowBytes (tokens ++ [last]) = byteNumbers tokens last ↔
      if ∀ token ∈ tokens, ByteToken token then LastReadable last
      else ∃ token ∈ tokens ++ [last], ULONG_MAX ≤ hexValue token := by
  induction tokens with
  | nil => simpa using lowBytes_singleton_iff last
  | cons token tokens ih =>
    rw [byteNumbers_cons]
    by_cases htoken : ByteToken token
    · have hvalue := hexValue_of_digits htoken.1
      have hle := htoken.2
      rw [← hvalue] at hle
      have hfits : hexValue token < ULONG_MAX := by unfold ULONG_MAX; omega
      have hlow : hexValue token % 256 = hexValue token := Nat.mod_eq_of_lt (by omega)
      rw [if_pos htoken, List.cons_append, lowBytes_cons, if_pos hfits, hlow, ← hvalue,
        (Option.map_injective List.cons_injective).eq_iff, ih]
      simp only [List.forall_mem_cons, htoken, true_and, List.exists_mem_cons_iff,
        not_le.mpr hfits, false_or]
    · have hnot : ¬∀ t ∈ token :: tokens, ByteToken t := fun hall =>
        htoken (hall token List.mem_cons_self)
      rw [if_neg htoken, lowBytes_eq_none_iff, if_neg hnot]

/-- A MAC address is read as the grammar has it exactly where its tokens are readable. -/
theorem parseMacAddress_iff (hv : AtText mem h t) :
    (parseMacAddress h).1.map MacAddress.numbers =
        numbersAt 16 (byte ':') 6 (t.dropWhile isSpace) ↔ MacReadable (t.dropWhile isSpace) := by
  have htrim : trimL h = (some (), h.advance (t.takeWhile isSpace).length) := by
    rw [trimL, hv.rest_eq]
  have hmac := @parseMacBytes_eq mem _ _ 5 (hv.advance_takeWhile isSpace)
  rw [parseMacAddress, Scan.bind_of_some htrim]
  refine (Eq.congr hmac numbersAt_eq).trans ?_
  rw [MacReadable]
  cases htokens : tokensAt 5 (t.dropWhile isSpace) with
  | none =>
    refine iff_of_true rfl fun tokens last hsome => ?_
    cases hsome
  | some tokens =>
    rw [Option.bind_some, Option.bind_some, lowBytes_eq_byteNumbers_iff]
    constructor
    · intro hread _ _ hsome
      rw [Option.some.inj hsome] at hread
      exact hread
    · exact fun hread => hread _ _ rfl

/-- MAC addresses are read as the grammar has them where their tokens are readable, IPv4
addresses everywhere. The numbers of an address are what it stores, so that addresses
which are read are told apart. -/
theorem parse_addresses_iff (hv : AtText mem h t) :
    ((parseMacAddress h).1.map MacAddress.numbers =
        numbersAt 16 (byte ':') 6 (t.dropWhile isSpace) ↔ MacReadable (t.dropWhile isSpace)) ∧
      (parseIpAddress h).1.map Ipv4.numbers = numbersAt 10 (byte '.') 4 t :=
  ⟨parseMacAddress_iff hv, parseIpAddress_eq hv⟩

theorem parse_addresses_iff_octets :
    (tokensAt 5 ((bytes " 00:1b:21:3c:9d:f8").dropWhile isSpace)).isSome = true ∧
    ((parseMacAddress (.ofLine (bytes " 00:1b:21:3c:9d:f8") (kLineEnd :: []))).1.map
          MacAddress.numbers =
        numbersAt 16 (byte ':') 6 ((bytes " 00:1b:21:3c:9d:f8").dropWhile isSpace) ↔
      MacReadable ((bytes " 00:1b:21:3c:9d:f8").dropWhile isSpace)) ∧
    (parseIpAddress (.ofLine (bytes "192.168.64.1 ff") (kLineEnd :: []))).1.map Ipv4.numbers =
      numbersAt 10 (byte '.') 4 (bytes "192.168.64.1 ff") :=
  ⟨by decide, (parse_addresses_iff (atText_ofLine _ [])).1,
    (parse_addresses_iff (atText_ofLine _ [])).2⟩

/-- A number of more than eight bits is cut to its low byte, and a token without a digit
is taken for a zero. -/
theorem not_parse_addresses :
    (parseMacAddress (.ofLine (bytes "1ff:2:3:4:5:zz") (kLineEnd :: []))).1.map
        MacAddress.numbers = some [255, 2, 3, 4, 5, 0] ∧
      numbersAt 16 (byte ':') 6 (bytes "1ff:2:3:4:5:zz") = none ∧
      (parseMacAddress (.ofLine (bytes "1ff:2:3:4:5:6") (kLineEnd :: []))).1.map
        MacAddress.numbers = some [255, 2, 3, 4, 5, 6] ∧
      numbersAt 16 (byte ':') 6 (bytes "1ff:2:3:4:5:6") = none := by
  decide

end Steps

end Columbo
