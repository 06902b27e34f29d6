import Mathlib.Data.List.Sort
import Mathlib.Order.Bounds.Basic

/-!
# Ordered maps

A map keeps its entries in the ascending order of their keys. An insertion does
not replace the value of a key that is there, so after any number of insertions
a key has the value that was inserted for it first. An iterator is a position
in the order of the entries; the position behind the last entry is the end of
the map, where no entry can be read.
-/
namespace Columbo

structure SortedMap (κ ν : Type) [LinearOrder κ] where
  entries : List (κ × ν)
  sorted : entries.Pairwise fun e e' => e.1 < e'.1

namespace SortedMap

variable {κ ν : Type} [LinearOrder κ] {m : SortedMap κ ν} {k k' : κ} {v : ν} {e : κ × ν} {i : ℕ}

def empty : SortedMap κ ν := ⟨[], List.Pairwise.nil⟩

def insertEntry (k : κ) (v : ν) : List (κ × ν) → List (κ × ν)
  | [] => [(k, v)]
  | e :: es =>
    if e.1 < k then e :: insertEntry k v es
    else if e.1 = k then e :: es
    else (k, v) :: e :: es

theorem mem_insertEntry {es : List (κ × ν)} (h : es.Pairwise fun e e' => e.1 < e'.1) :
    e ∈ insertEntry k v es ↔ e ∈ es ∨ e = (k, v) ∧ ∀ e' ∈ es, e'.1 ≠ k := by
  induction es with
  | nil => simp [insertEntry]
  | cons x es ih =>
    have htail := List.pairwise_cons.mp h
    rw [insertEntry]
    split_ifs with hlt heq
    · rw [List.mem_cons, ih htail.2, List.mem_cons, List.forall_mem_cons, and_iff_right hlt.ne,
        or_assoc]
    · simp only [List.forall_mem_cons, ne_eq, heq, not_true_eq_false, false_and, and_false,
        or_false]
    · have hfirst : k < x.1 := lt_of_le_of_ne (not_lt.mp hlt) (Ne.symm heq)
      have hfresh : ∀ e' ∈ x :: es, e'.1 ≠ k := by
        rintro e' he' rfl
        rcases List.mem_cons.mp he' with rfl | he'
        · exact hfirst.ne rfl
        · exact (hfirst.trans (htail.1 e' he')).ne rfl
      rw [List.mem_cons, and_iff_left hfresh, or_comm]

theorem pairwise_insertEntry (k : κ) (v : ν) {es : List (κ × ν)}
    (h : es.Pairwise fun e e' => e.1 < e'.1) :
    (insertEntry k v es).Pairwise fun e e' => e.1 < e'.1 := by
  induction es with
  | nil => exact List.pairwise_singleton _ _
  | cons x es ih =>
    have htail := List.pairwise_cons.mp h
    rw [insertEntry]
    split_ifs with hlt heq
    · refine List.pairwise_cons.mpr ⟨fun y hy => ?_, ih htail.2⟩
      rcases (mem_insertEntry htail.2).mp hy with hy | ⟨rfl, -⟩
      · exact htail.1 y hy
      · exact hlt
    · exact h
    · have hfirst : k < x.1 := lt_of_le_of_ne (not_lt.mp hlt) (Ne.symm heq)
      refine List.pairwise_cons.mpr ⟨fun y hy => ?_, h⟩
      rcases List.mem_cons.mp hy with rfl | hy
      · exact hfirst
      · exact hfirst.trans (htail.1 y hy)

/-- Insertion of a key that is not there yet. -/
def insert (m : SortedMap κ ν) (k : κ) (v : ν) : SortedMap κ ν :=
  ⟨insertEntry k v m.entries, pairwise_insertEntry k v m.sorted⟩

def find? (m : SortedMap κ ν) (k : κ) : Option ν :=
  (m.entries.find? fun e => e.1 = k).map Prod.snd

/-- The keys of the map. -/
def keys (m : SortedMap κ ν) : Set κ := {k | ∃ v, (k, v) ∈ m.entries}

theorem eq_of_key_eq {e' : κ × ν} (he : e ∈ m.entries) (he' : e' ∈ m.entries)
    (h : e.1 = e'.1) : e = e' := by
  obtain ⟨i, hi, rfl⟩ := List.mem_iff_getElem.mp he
  obtain ⟨j, hj, rfl⟩ := List.mem_iff_getElem.mp he'
  have hlt := List.pairwise_iff_getElem.mp m.sorted
  rcases lt_trichotomy i j with hij | rfl | hij
  · exact absurd h (hlt i j hi hj hij).ne
  · rfl
  · exact absurd h (hlt j i hj hi hij).ne'

theorem find?_eq_some_iff : m.find? k = some v ↔ (k, v) ∈ m.entries := by
  constructor
  · intro h
    obtain ⟨e, he, rfl⟩ := Option.map_eq_some_iff.mp h
    have hk : e.1 = k := by simpa using List.find?_some he
    exact hk ▸ List.mem_of_find?_eq_some he
  · intro h
    obtain ⟨e, he⟩ : ∃ e, m.entries.find? (fun e => decide (e.1 = k)) = some e :=
      Option.isSome_iff_exists.mp (List.find?_isSome.mpr ⟨(k, v), h, by simp⟩)
    have hk : e.1 = k := by simpa using List.find?_some he
    have heq : e = (k, v) := eq_of_key_eq (List.mem_of_find?_eq_some he) h hk
    rw [find?, he, heq]
    rfl

theorem mem_keys_iff : k ∈ m.keys ↔ (m.find? k).isSome := by
  rw [Option.isSome_iff_exists]
  exact exists_congr fun v => find?_eq_some_iff.symm

theorem find?_eq_none_iff : m.find? k = none ↔ ∀ e ∈ m.entries, e.1 ≠ k := by
  simp [find?]

@[simp] theorem find?_empty (k : κ) : (empty : SortedMap κ ν).find? k = none := rfl

theorem find?_insert (m : SortedMap κ ν) (k k' : κ) (v : ν) :
    (m.insert k v).find? k' = (m.find? k').or (if k = k' then some v else none) := by
  refine Option.ext fun w => ?_
  rw [find?_eq_some_iff, insert, mem_insertEntry m.sorted, ← find?_eq_some_iff,
    Option.or_eq_some_iff]
  refine or_congr Iff.rfl ⟨?_, ?_⟩
  · rintro ⟨heq, hfresh⟩
    obtain ⟨rfl, rfl⟩ := Prod.mk.inj heq
    exact ⟨find?_eq_none_iff.mpr hfresh, if_pos rfl⟩
  · rintro ⟨hnone, hw⟩
    obtain ⟨rfl, rfl⟩ : k = k' ∧ v = w := by simpa using hw
    exact ⟨rfl, find?_eq_none_iff.mp hnone⟩

/-- The insertions `es`, in order. -/
def insertAll (m : SortedMap κ ν) (es : List (κ × ν)) : SortedMap κ ν :=
  es.foldl (fun m e => m.insert e.1 e.2) m

/-- The first insertion of a key decides its value. -/
theorem find?_insertAll (m : SortedMap κ ν) (es : List (κ × ν)) (k : κ) :
    (m.insertAll es).find? k =
      (m.find? k).or ((es.find? fun e => e.1 = k).map Prod.snd) := by
  induction es generalizing m with
  | nil => simp [insertAll]
  | cons e es ih =>
    change ((m.insert e.1 e.2).insertAll es).find? k = _
    rw [ih, find?_insert, Option.or_assoc]
    by_cases h : e.1 = k
    · rw [if_pos h, List.find?_cons_of_pos (by simpa using h)]
      rfl
    · rw [if_neg h, List.find?_cons_of_neg (by simpa using h), Option.none_or]

theorem insertAll_append (m : SortedMap κ ν) (es es' : List (κ × ν)) :
    m.insertAll (es ++ es') = (m.insertAll es).insertAll es' := List.foldl_append

/-- After insertions of distinct keys a key has the value that was inserted for it. -/
theorem find?_insertAll_of_nodup {es : List (κ × ν)} (h : (es.map Prod.fst).Nodup) :
    (empty.insertAll es).find? k = some v ↔ (k, v) ∈ es := by
  rw [find?_insertAll, find?_empty, Option.none_or, Option.map_eq_some_iff]
  constructor
  · rintro ⟨e, he, rfl⟩
    have hk : e.1 = k := by simpa using List.find?_some he
    exact hk ▸ List.mem_of_find?_eq_some he
  · intro hmem
    obtain ⟨e, he⟩ : ∃ e, es.find? (fun e => decide (e.1 = k)) = some e :=
      Option.isSome_iff_exists.mp (List.find?_isSome.mpr ⟨(k, v), hmem, by simp⟩)
    have hk : e.1 = k := by simpa using List.find?_some he
    have heq : e = (k, v) :=
      List.inj_on_of_nodup_map h (List.mem_of_find?_eq_some he) hmem hk
    exact ⟨e, he, by rw [heq]⟩

section Iterators

/-- The position of the first entry whose key is not smaller than `k`. -/
def lowerBound (m : SortedMap κ ν) (k : κ) : ℕ := m.entries.findIdx fun e => k ≤ e.1

/-- The position of the first entry whose key is greater than `k`. -/
def upperBound (m : SortedMap κ ν) (k : κ) : ℕ := m.entries.findIdx fun e => k < e.1

/-- The entry at a position. There is none at the end of the map. -/
def deref (m : SortedMap κ ν) (i : ℕ) : Option (κ × ν) := m.entries[i]?

theorem exists_deref_iff : (∃ i, m.deref i = some e) ↔ e ∈ m.entries :=
  List.mem_iff_getElem?.symm

theorem exists_deref_of_le {j : ℕ} (h : m.deref j = some e) (hij : i ≤ j) :
    ∃ e', m.deref i = some e' := by
  have hj : j < m.entries.length := (List.getElem?_eq_some_iff.mp h).1
  exact ⟨m.entries[i], List.getElem?_eq_getElem (hij.trans_lt hj)⟩

theorem deref_lt {e' : κ × ν} {j : ℕ} (h : m.deref i = some e) (h' : m.deref j = some e')
    (hij : i < j) : e.1 < e'.1 := by
  obtain ⟨hi, rfl⟩ := List.getElem?_eq_some_iff.mp h
  obtain ⟨hj, rfl⟩ := List.getElem?_eq_some_iff.mp h'
  exact List.pairwise_iff_getElem.mp m.sorted i j hi hj hij

theorem deref_le {e' : κ × ν} {j : ℕ} (h : m.deref i = some e) (h' : m.deref j = some e')
    (hij : i ≤ j) : e.1 ≤ e'.1 := by
  rcases hij.lt_or_eq with hlt | rfl
  · exact (deref_lt h h' hlt).le
  · exact (Option.some.inj (h.symm.trans h')) ▸ le_rfl

theorem lt_of_deref_lowerBound (h : m.deref i = some e) (hi : i < m.lowerBound k) : e.1 < k := by
  obtain ⟨hlen, rfl⟩ := List.getElem?_eq_some_iff.mp h
  simpa using List.not_of_lt_findIdx hi

theorem le_of_deref_lowerBound (h : m.deref (m.lowerBound k) = some e) : k ≤ e.1 := by
  simpa using List.findIdx_of_getElem?_eq_some h

theorem le_of_deref_upperBound (h : m.deref i = some e) (hi : i < m.upperBound k) : e.1 ≤ k := by
  obtain ⟨hlen, rfl⟩ := List.getElem?_eq_some_iff.mp h
  simpa using List.not_of_lt_findIdx hi

theorem lt_of_deref_upperBound (h : m.deref (m.upperBound k) = some e) : k < e.1 := by
  simpa using List.findIdx_of_getElem?_eq_some h

theorem upperBound_le (m : SortedMap κ ν) (k : κ) : m.upperBound k ≤ m.entries.length :=
  List.findIdx_le_length

/-- The search for a key ends at an entry unless every key is smaller. -/
theorem isSome_deref_lowerBound :
    (m.deref (m.lowerBound k)).isSome ↔ ∃ key ∈ m.keys, k ≤ key := by
  have hlength : (m.deref (m.lowerBound k)).isSome ↔ m.lowerBound k < m.entries.length := by
    simp [deref]
  rw [hlength, lowerBound, List.findIdx_lt_length]
  constructor
  · rintro ⟨e, he, hle⟩
    exact ⟨e.1, ⟨e.2, he⟩, by simpa using hle⟩
  · rintro ⟨key, ⟨v, hv⟩, hle⟩
    exact ⟨(key, v), hv, by simpa using hle⟩

/-- The value at the greatest key that is not above `k`, if there is such a key. -/
def Nearest (m : SortedMap κ ν) (k : κ) : Option ν → Prop
  | none => ∀ key ∈ m.keys, k < key
  | some v => ∃ key, IsGreatest {key | key ∈ m.keys ∧ key ≤ k} key ∧ m.find? key = some v

theorem nearest_none (h : ∀ e, m.deref 0 = some e → k < e.1) : m.Nearest k none := by
  rintro key ⟨v, hv⟩
  obtain ⟨i, hi⟩ := exists_deref_iff.mpr hv
  obtain ⟨e, he⟩ := exists_deref_of_le hi (Nat.zero_le i)
  exact (h e he).trans_le (deref_le he hi (Nat.zero_le i))

/-- An entry that is not above `k` and whose successor is. -/
theorem nearest_some (h : m.deref i = some e) (hle : e.1 ≤ k)
    (hnext : ∀ e', m.deref (i + 1) = some e' → k < e'.1) : m.Nearest k (some e.2) := by
  have hmem : e ∈ m.entries := exists_deref_iff.mp ⟨i, h⟩
  refine ⟨e.1, ⟨⟨⟨e.2, hmem⟩, hle⟩, ?_⟩, find?_eq_some_iff.mpr hmem⟩
  rintro key ⟨⟨v, hv⟩, hkey⟩
  obtain ⟨j, hj⟩ := exists_deref_iff.mpr hv
  by_contra habove
  have hij : i + 1 ≤ j := by
    by_contra hji
    exact habove (deref_le hj h (by omega))
  obtain ⟨e', he'⟩ := exists_deref_of_le hj hij
  exact absurd (hnext e' he') (not_lt.mpr ((deref_le he' hj hij).trans hkey))

/-- A key has at most one nearest value. -/
theorem Nearest.unique {r r' : Option ν} (h : m.Nearest k r) (h' : m.Nearest k r') : r = r' := by
  match r, r' with
  | none, none => rfl
  | none, some v =>
    obtain ⟨key, hkey, -⟩ := h'
    exact absurd (h key hkey.1.1) (not_lt.mpr hkey.1.2)
  | some v, none =>
    obtain ⟨key, hkey, -⟩ := h
    exact absurd (h' key hkey.1.1) (not_lt.mpr hkey.1.2)
  | some v, some v' =>
    obtain ⟨key, hkey, hv⟩ := h
    obtain ⟨key', hkey', hv'⟩ := h'
    rw [← hv, ← hv', hkey.unique hkey']

end Iterators

end SortedMap

end Columbo
