import Columbo.LineReading
import Columbo.Occurrence

/-!
# The search for a string in a line

After an attempt that fails the search of the line handler resumes behind the bytes that
matched. It finds the first occurrence exactly when the text before it is stepped over in
this manner, without an attempt that runs into the occurrence. `trimTillConsume` is the
search of the string utilities, which relies on `std::string::find`.
-/
namespace Columbo

open Occurrence LineHandler

/-- Which operand of `tt.erase(begin, end) != tt.end()` is evaluated first. The language
leaves it open, and the erasure moves the end. -/
inductive OperandOrder
  | eraseFirst
  | endFirst
  deriving DecidableEq

/-- `trim_till_consume`, with the string it leaves behind. `erase` returns the position
behind the erased bytes, which is the start of the string that is left. -/
def trimTillConsume (order : OperandOrder) (tt tc : Bytes) (strict : Bool) : Bool × Bytes :=
  match find tc tt with
  | none => (false, tt)
  | some res =>
    if strict && res != 0 then (false, tt)
    else
      let erased := tt.drop (res + tc.length)
      match order with
      | .eraseFirst => (0 != erased.length, erased)
      | .endFirst => (0 != tt.length, erased)

variable {s p u t front rest : Bytes} {c d : UInt8} {fuel consumed k : ℕ}

theorem matched_append (hne : u.head? ≠ some c) : matched (p ++ [c] ++ t) (p ++ u) = p.length := by
  induction p with
  | nil =>
    cases u with
    | nil => rfl
    | cons d u =>
      have hdc : d ≠ c := fun he => hne (by rw [he]; rfl)
      simp [matched, hdc.symm]
  | cons b p ih => simpa [matched] using ih

/-- The bytes that agree, and what follows them in the pattern and in the text. -/
theorem matched_split (s t : Bytes) : ∃ p s' u, s = p ++ s' ∧ t = p ++ u ∧
    matched s t = p.length ∧ (s' = [] ∨ u = [] ∨ s'.head? ≠ u.head?) := by
  induction s generalizing t with
  | nil => exact ⟨[], [], t, rfl, rfl, rfl, .inl rfl⟩
  | cons c s ih =>
    cases t with
    | nil => exact ⟨[], c :: s, [], rfl, rfl, rfl, .inr (.inl rfl)⟩
    | cons d t =>
      by_cases hcd : c = d
      · obtain ⟨p, s', u, hs, ht, hm, hends⟩ := ih t
        refine ⟨c :: p, s', u, by rw [hs]; rfl, by rw [ht, hcd]; rfl, ?_, hends⟩
        rw [matched, if_pos hcd, hm]
        rfl
      · refine ⟨[], c :: s, d :: t, rfl, rfl, ?_, .inr (.inr ?_)⟩
        · rw [matched, if_neg hcd]
          rfl
        · simpa using hcd

theorem searchLoop_nil (fuel consumed : ℕ) : searchLoop s fuel [] consumed = none := by
  cases fuel with
  | zero => rfl
  | succ fuel => cases s <;> simp [searchLoop]

/-- A byte that does not start the pattern is skipped. -/
theorem searchLoop_gap (hc : s.head? ≠ some c) :
    searchLoop s fuel (c :: t) consumed = searchLoop s fuel t (consumed + 1) := by
  cases fuel with
  | zero => rfl
  | succ fuel =>
    cases s with
    | nil => rfl
    | cons a s =>
      have hca : c ≠ a := fun he => hc (by rw [he]; rfl)
      have hskip : (c :: t).takeWhile (· ≠ a) = c :: t.takeWhile (· ≠ a) := by
        rw [List.takeWhile_cons, if_pos (by simpa using hca)]
      simp only [searchLoop, hskip, List.length_cons, List.drop_succ_cons]
      rw [show consumed + ((t.takeWhile (· ≠ a)).length + 1) =
        consumed + 1 + (t.takeWhile (· ≠ a)).length by omega]

theorem searchLoop_gaps {gap : Bytes} (hgap : ∀ c ∈ gap, s.head? ≠ some c) :
    searchLoop s fuel (gap ++ t) consumed = searchLoop s fuel t (consumed + gap.length) := by
  induction gap generalizing consumed with
  | nil => rfl
  | cons c gap ih =>
    rw [List.cons_append, searchLoop_gap (hgap c List.mem_cons_self),
      ih fun d hd => hgap d (List.mem_cons_of_mem c hd), List.length_cons]
    congr 1
    omega

theorem takeWhile_head (t : Bytes) : (c :: t).takeWhile (· ≠ c) = [] := by
  rw [List.takeWhile_cons, if_neg (by simp)]

/-- One attempt, at a text that starts like the pattern. -/
theorem searchLoop_attempt (hs : s.head? = some c) :
    searchLoop s (fuel + 1) (c :: t) consumed =
      if matched s (c :: t) = s.length then some (consumed + s.length)
      else if matched s (c :: t) = (c :: t).length then none
      else searchLoop s fuel ((c :: t).drop (matched s (c :: t)))
        (consumed + matched s (c :: t)) := by
  obtain ⟨s, rfl⟩ : ∃ s', s = c :: s' := ⟨s.tail, List.eq_cons_of_mem_head? hs⟩
  simp only [searchLoop, takeWhile_head, List.length_nil, List.drop_zero, Nat.add_zero]
  rw [if_neg (by simp)]
  split_ifs with hwhole
  · rw [hwhole]
  · rfl
  · rfl

/-- A text either has no byte that starts the pattern, or an attempt starts behind a gap. -/
theorem gap_split (c : UInt8) (t : Bytes) : ∃ gap, (∀ d ∈ gap, some c ≠ some d) ∧
    (t = gap ∨ ∃ u, t = gap ++ c :: u) := by
  induction t with
  | nil => exact ⟨[], by simp, .inl rfl⟩
  | cons d t ih =>
    by_cases hdc : d = c
    · exact ⟨[], by simp, .inr ⟨t, by rw [hdc]; rfl⟩⟩
    · obtain ⟨gap, hgap, htext⟩ := ih
      refine ⟨d :: gap, ?_, ?_⟩
      · intro b hb
        rcases List.mem_cons.mp hb with rfl | hb
        · simpa using fun he => hdc he.symm
        · exact hgap b hb
      · rcases htext with rfl | ⟨u, rfl⟩
        · exact .inl rfl
        · exact .inr ⟨u, rfl⟩

/-- Every attempt consumes a byte, so more fuel than the text has bytes changes nothing:
the loop has ended by then. -/
theorem searchLoop_ends (hs : s ≠ []) {fuel' : ℕ} (hfuel : t.length ≤ fuel)
    (hfuel' : t.length ≤ fuel') :
    searchLoop s fuel t consumed = searchLoop s fuel' t consumed := by
  obtain ⟨c, hhead⟩ : ∃ c, s.head? = some c := by
    cases s with
    | nil => exact absurd rfl hs
    | cons c s => exact ⟨c, rfl⟩
  induction fuel generalizing t consumed fuel' with
  | zero =>
    obtain rfl := List.length_eq_zero_iff.mp (Nat.le_zero.mp hfuel)
    rw [searchLoop_nil, searchLoop_nil]
  | succ fuel ih =>
    obtain ⟨gap, hgap, htext⟩ := gap_split c t
    rw [← hhead] at hgap
    rcases htext with rfl | ⟨u, rfl⟩
    · rw [← List.append_nil t, searchLoop_gaps hgap, searchLoop_gaps hgap, searchLoop_nil,
        searchLoop_nil]
    · rw [searchLoop_gaps hgap, searchLoop_gaps hgap]
      rw [List.length_append, List.length_cons] at hfuel hfuel'
      obtain ⟨fuel', rfl⟩ : ∃ n, fuel' = n + 1 := ⟨fuel' - 1, by omega⟩
      rw [searchLoop_attempt hhead, searchLoop_attempt hhead]
      have hpos : 0 < matched s (c :: u) := by
        obtain ⟨s, rfl⟩ : ∃ s', s = c :: s' := ⟨s.tail, List.eq_cons_of_mem_head? hhead⟩
        simp [matched]
      have hlength : ((c :: u).drop (matched s (c :: u))).length ≤ u.length := by
        rw [List.length_drop, List.length_cons]
        omega
      have hagree : searchLoop s fuel ((c :: u).drop (matched s (c :: u)))
          (consumed + gap.length + matched s (c :: u)) =
          searchLoop s fuel' ((c :: u).drop (matched s (c :: u)))
          (consumed + gap.length + matched s (c :: u)) := ih (by omega) (by omega)
      rw [hagree]

/-- The search with an answer of its own where the fuel runs out before the text does. -/
def searchLoopOr (outOfFuel : Option ℕ) (toConsume : Bytes) : ℕ → Bytes → ℕ → Option ℕ
  | 0, [], _ => none
  | 0, _ :: _, _ => outOfFuel
  | fuel + 1, text, consumed =>
    match toConsume with
    | [] => none
    | t :: _ =>
      let skipped := (text.takeWhile (· ≠ t)).length
      let sub := text.drop skipped
      let m := matched toConsume sub
      if sub = [] then none
      else if m = toConsume.length then some (consumed + skipped + m)
      else if m = sub.length then none
      else searchLoopOr outOfFuel toConsume fuel (sub.drop m) (consumed + skipped + m)

/-- The fuel does not run out, so no result of the search comes from there. -/
theorem searchLoopOr_eq (outOfFuel : Option ℕ) (hfuel : t.length ≤ fuel) :
    searchLoopOr outOfFuel s fuel t consumed = searchLoop s fuel t consumed := by
  induction fuel generalizing t consumed with
  | zero =>
    obtain rfl := List.length_eq_zero_iff.mp (Nat.le_zero.mp hfuel)
    rfl
  | succ fuel ih =>
    cases s with
    | nil => rfl
    | cons a s =>
      obtain ⟨gap, hgap, htext⟩ := gap_split a t
      have hskip : ∀ d ∈ gap, decide (d ≠ a) = true := fun d hd =>
        decide_eq_true fun hda => hgap d hd (congrArg some hda.symm)
      rcases htext with rfl | ⟨u, rfl⟩
      · have htake : t.takeWhile (· ≠ a) = t := List.takeWhile_eq_self_iff.mpr hskip
        simp only [searchLoopOr, searchLoop, htake, List.drop_length, if_true]
      · have htake : (gap ++ a :: u).takeWhile (· ≠ a) = gap := by
          rw [List.takeWhile_append_of_pos hskip, takeWhile_head, List.append_nil]
        have hpos : 0 < matched (a :: s) (a :: u) := by
          rw [matched, if_pos rfl]
          exact Nat.succ_pos _
        rw [List.length_append, List.length_cons] at hfuel
        simp only [searchLoopOr, searchLoop, htake, List.drop_left]
        rw [ih (by rw [List.length_drop, List.length_cons]; omega)]

/-- The search finds an occurrence behind a front that is stepped over. -/
theorem searchLoop_of_steppedOver (hs : s ≠ []) (h : SteppedOver s front (s ++ rest))
    (hfuel : (front ++ (s ++ rest)).length ≤ fuel) :
    searchLoop s fuel (front ++ (s ++ rest)) consumed =
      some (consumed + (front.length + s.length)) := by
  obtain ⟨a, s', hcons⟩ : ∃ a s', s = a :: s' := List.exists_cons_of_ne_nil hs
  have hhead : s.head? = some a := by rw [hcons]; rfl
  generalize hbehind : s ++ rest = behind at h hfuel
  induction h generalizing consumed fuel with
  | nil _ =>
    subst hbehind
    obtain ⟨fuel, rfl⟩ : ∃ n, fuel = n + 1 := ⟨fuel - 1, by simp [hcons] at hfuel; omega⟩
    have hmatched : matched s (s ++ rest) = s.length := matched_append_self s rest
    rw [List.nil_append, List.length_nil, Nat.zero_add]
    rw [hcons, List.cons_append] at hmatched ⊢
    rw [searchLoop_attempt rfl, if_pos hmatched]
  | gap hc _ ih =>
    rw [List.cons_append, List.length_cons] at hfuel
    rw [List.cons_append, searchLoop_gap hc, ih hbehind (by omega), List.length_cons]
    congr 1
    omega
  | @attempt p c front behind hp hmatched hbroken _ ih =>
    obtain ⟨b, p', rfl⟩ := List.exists_cons_of_ne_nil hp
    obtain ⟨w, hw⟩ := hmatched
    obtain rfl : a = b := by
      rw [hcons] at hw
      exact (List.cons.inj hw).1.symm
    rw [List.append_assoc, List.cons_append, List.length_cons] at hfuel
    obtain ⟨fuel, rfl⟩ : ∃ n, fuel = n + 1 := ⟨fuel - 1, by omega⟩
    have hlength : matched s (a :: (p' ++ (front ++ behind))) = (a :: p').length := by
      rw [← hw, ← List.cons_append]
      exact matched_append hbroken
    have hshort : (a :: p').length < s.length := by
      rw [← hw]
      simp
    have hbehind' : 0 < behind.length := by
      rw [← hbehind, hcons]
      simp
    rw [List.append_assoc, List.cons_append, searchLoop_attempt hhead, hlength,
      if_neg hshort.ne, if_neg (by simp only [List.length_cons, List.length_append]; omega),
      ← List.cons_append, List.drop_left, ih hbehind (by rw [List.length_append] at hfuel; omega)]
    congr 1
    simp only [List.length_append]
    omega

/-- What the search finds is an occurrence behind a front that is stepped over. -/
theorem steppedOver_of_searchLoop (hs : s ≠ []) (h : searchLoop s fuel t consumed = some k) :
    ∃ front rest, t = front ++ (s ++ rest) ∧ k = consumed + (front.length + s.length) ∧
      SteppedOver s front (s ++ rest) := by
  obtain ⟨a, s', hcons⟩ : ∃ a s', s = a :: s' := List.exists_cons_of_ne_nil hs
  have hhead : s.head? = some a := by rw [hcons]; rfl
  induction fuel generalizing t consumed with
  | zero => exact absurd h (by simp [searchLoop])
  | succ fuel ih =>
    obtain ⟨gap, hgap, htext⟩ := gap_split a t
    rw [← hhead] at hgap
    rcases htext with rfl | ⟨u, rfl⟩
    · rw [← List.append_nil t, searchLoop_gaps hgap, searchLoop_nil] at h
      exact absurd h (by simp)
    · rw [searchLoop_gaps hgap, searchLoop_attempt hhead] at h
      obtain ⟨p, s'', v, hsplit, htext, hm, hends⟩ := matched_split s (a :: u)
      split_ifs at h with hwhole hend
      · obtain ⟨rest, hrest⟩ := matched_eq_length hwhole
        have hstepped : SteppedOver s (gap ++ []) (s ++ rest) := (SteppedOver.nil _).gaps hgap
        rw [List.append_nil] at hstepped
        refine ⟨gap, rest, by rw [hrest], ?_, hstepped⟩
        rw [← Option.some.inj h]
        omega
      · rw [hm, htext, List.drop_left] at h
        obtain ⟨front, rest, hv, hk, hstepped⟩ := ih h
        refine ⟨gap ++ (p ++ front), rest, ?_, ?_, .gaps hgap ?_⟩
        · rw [htext, hv]
          simp
        · rw [hk]
          simp only [List.length_append]
          omega
        · -- The attempt broke off: the pattern and the text go on with different bytes.
          have hdiffer : s''.head? ≠ v.head? := by
            rcases hends with rfl | rfl | hdiffer
            · exact absurd (by rw [hm, hsplit, List.append_nil]) hwhole
            · exact absurd (by rw [hm, htext, List.append_nil]) hend
            · exact hdiffer
          have hp : p ≠ [] := by
            rintro rfl
            rw [List.nil_append] at hsplit htext
            rw [← hsplit, ← htext, hhead] at hdiffer
            exact hdiffer rfl
          obtain ⟨c, w, rfl⟩ : ∃ c w, s'' = c :: w := by
            refine List.exists_cons_of_ne_nil ?_
            rintro rfl
            exact hwhole (by rw [hm, hsplit, List.append_nil])
          have hmatched : p ++ [c] <+: s := ⟨w, by rw [hsplit, List.append_assoc]; rfl⟩
          refine .attempt hp hmatched ?_ hstepped
          rw [← hv]
          exact hdiffer.symm

/-- Behind the first occurrence of the string if there is one, and unmoved otherwise. -/
def LineHandler.sought (s : Bytes) (h : LineHandler) : Option Unit × LineHandler :=
  match find s h.rest with
  | some k => (some (), h.advance (k + s.length))
  | none => (none, h)

/-- The same for a string of its own, from which the front is erased. -/
def soughtText (s t : Bytes) : Bool × Bytes :=
  match find s t with
  | some k => (true, t.drop (k + s.length))
  | none => (false, t)

/-- The search goes behind the first occurrence of the string if there is one, and stays
where it is otherwise. The loop ends, and the search of the string utilities returns the same
verdict and leaves the same text. -/
def SearchesFor (order : OperandOrder) (h : LineHandler) (s : Bytes) : Prop :=
  (∀ fuel, h.rest.length ≤ fuel →
      searchLoop s fuel h.rest 0 = searchLoop s h.rest.length h.rest 0) ∧
    consumeAndTrimTillString s h = h.sought s ∧
    ((consumeAndTrimTillString s h).1.isSome, (consumeAndTrimTillString s h).2.rest) =
      trimTillConsume order h.rest s false

/-- When the search does what it should. -/
def SearchableFor (order : OperandOrder) (t s : Bytes) : Prop :=
  ∀ k, find s t = some k → SteppedOver s (t.take k) (t.drop k) ∧
    (order = .endFirst ∨ k + s.length < t.length)

theorem rest_advance (h : LineHandler) (n : ℕ) : (h.advance n).rest = h.rest.drop n := by
  simp only [LineHandler.rest, LineHandler.cursor, LineHandler.advance, LineHandler.curLength]
  rw [List.drop_take, List.drop_drop, Nat.sub_add_eq]

theorem rest_length_le (h : LineHandler) : h.rest.length ≤ h.curLength := List.length_take_le _ _

/-- The checks in front of the loop only refuse lines that are too short for the string. -/
theorem consumeAndTrimTillString_eq (hs : s ≠ []) (h : LineHandler) :
    consumeAndTrimTillString s h =
      ((searchLoop s h.rest.length h.rest 0).map fun _ => (),
        (searchLoop s h.rest.length h.rest 0).elim h h.advance) := by
  unfold consumeAndTrimTillString
  split_ifs with hshort
  · have hnone : searchLoop s h.rest.length h.rest 0 = none := by
      cases hsearch : searchLoop s h.rest.length h.rest 0 with
      | none => rfl
      | some k =>
        have hle := (infix_of_searchLoop hsearch).length_le
        have hcur := rest_length_le h
        have hpos := List.length_pos_iff.mpr hs
        simp [LineHandler.isEmpty] at hshort
        omega
    rw [hnone]
    rfl
  · cases searchLoop s h.rest.length h.rest 0 <;> rfl

theorem searchLoop_eq_find_iff (hs : s ≠ []) (t : Bytes) :
    searchLoop s t.length t 0 = (find s t).map (· + s.length) ↔
      ∀ k, find s t = some k → SteppedOver s (t.take k) (t.drop k) := by
  constructor
  · intro hsearch k hk
    rw [hk] at hsearch
    obtain ⟨front, rest, ht, hlength, hstepped⟩ := steppedOver_of_searchLoop hs hsearch
    obtain rfl : k = front.length := by
      simp only at hlength
      omega
    rwa [ht, List.take_left, List.drop_left]
  · intro hstepped
    cases hfind : find s t with
    | none =>
      cases hsearch : searchLoop s t.length t 0 with
      | none => rfl
      | some k => exact absurd (infix_of_searchLoop hsearch) (find_eq_none_iff.mp hfind)
    | some k =>
      have hfront := hstepped k hfind
      obtain ⟨front, rest, rfl, rfl⟩ := split_of_find hfind
      rw [List.take_left, List.drop_left] at hfront
      rw [searchLoop_of_steppedOver hs hfront le_rfl, Nat.zero_add]
      rfl

/-- Whether the search goes to the place that `find` names. -/
theorem consumeAndTrimTillString_eq_find_iff (hs : s ≠ []) (h : LineHandler) :
    consumeAndTrimTillString s h = h.sought s ↔
      ∀ k, find s h.rest = some k → SteppedOver s (h.rest.take k) (h.rest.drop k) := by
  rw [← searchLoop_eq_find_iff hs, consumeAndTrimTillString_eq hs, LineHandler.sought]
  cases hsearch : searchLoop s h.rest.length h.rest 0 with
  | none => cases find s h.rest <;> simp
  | some consumed =>
    cases find s h.rest with
    | none => simp
    | some k => simp [LineHandler.advance]

/-- The verdict of the string utilities is lost where the occurrence ends the text, if the
end is looked up after the erasure. -/
theorem trimTillConsume_iff (hs : s ≠ []) (order : OperandOrder) (t : Bytes) :
    trimTillConsume order t s false = soughtText s t ↔
      ∀ k, find s t = some k → order = .endFirst ∨ k + s.length < t.length := by
  rw [soughtText]
  cases hfind : find s t with
  | none => simp [trimTillConsume, hfind]
  | some k =>
    have hpos := List.length_pos_iff.mpr hs
    obtain ⟨front, rest, rfl, rfl⟩ := split_of_find hfind
    cases order with
    | eraseFirst =>
      simp only [trimTillConsume, hfind, Bool.false_and, Bool.false_eq_true, if_false,
        Prod.mk.injEq, and_true, bne_iff_ne, Option.some.injEq, List.length_drop,
        List.length_append, forall_eq', reduceCtorEq, false_or]
      omega
    | endFirst =>
      simp only [trimTillConsume, hfind, Bool.false_and, Bool.false_eq_true, if_false,
        Prod.mk.injEq, and_true, bne_iff_ne, List.length_append, true_or, implies_true, iff_true]
      omega

/-- The search does what it should exactly for the searchable strings. -/
theorem searchesFor_iff (order : OperandOrder) (h : LineHandler) (hs : s ≠ []) :
    SearchesFor order h s ↔ SearchableFor order h.rest s := by
  have hends : ∀ fuel, h.rest.length ≤ fuel →
      searchLoop s fuel h.rest 0 = searchLoop s h.rest.length h.rest 0 :=
    fun fuel hfuel => searchLoop_ends hs hfuel le_rfl
  have hagree : consumeAndTrimTillString s h = h.sought s →
      ((consumeAndTrimTillString s h).1.isSome, (consumeAndTrimTillString s h).2.rest) =
        soughtText s h.rest := by
    intro hsearch
    rw [hsearch, LineHandler.sought, soughtText]
    cases find s h.rest with
    | none => rfl
    | some k =>
      dsimp only
      rw [rest_advance]
      rfl
  constructor
  · rintro ⟨-, hsearch, htrim⟩ k hk
    rw [hagree hsearch, eq_comm, trimTillConsume_iff hs] at htrim
    exact ⟨(consumeAndTrimTillString_eq_find_iff hs h).mp hsearch k hk, htrim k hk⟩
  · intro hsearchable
    have hsearch := (consumeAndTrimTillString_eq_find_iff hs h).mpr
      fun k hk => (hsearchable k hk).1
    refine ⟨hends, hsearch, ?_⟩
    rw [hagree hsearch, eq_comm, trimTillConsume_iff hs]
    exact fun k hk => (hsearchable k hk).2

theorem searchesFor_iff_off :
    SearchesFor .eraseFirst (.ofLine (bytes "read: off=0x10") []) (bytes "off=0x") ↔
      SearchableFor .eraseFirst (LineHandler.ofLine (bytes "read: off=0x10") []).rest
        (bytes "off=0x") :=
  searchesFor_iff .eraseFirst _ (by decide)

/-- In `aaab` the first attempt for `aab` breaks off at the third byte and the search resumes
there, inside the only occurrence. -/
theorem not_searchesFor : ¬ ∀ (order : OperandOrder) (h : LineHandler) (s : Bytes), s ≠ [] →
    SearchesFor order h s := by
  intro hall
  have hsearch := (hall .endFirst (.ofLine (bytes "aaab") []) (bytes "aab") (by decide)).2.1
  have hfound := congrArg (fun r => r.1.isSome) hsearch
  exact absurd hfound (by decide)

end Columbo
