import Columbo.SymsFilter

/-!
# The nearest symbol below an address

Both lookups search the ordered symbol table. The one that searches for the
first key above the address is right for every table. The one that searches for
the first key not below it reads the entry it found without asking whether
there is one, so it is right exactly for the addresses up to the last key.
-/
namespace Columbo.SymsFilter

variable {s : SymsFilter} {address : UInt64}

theorem filterNearestAddressUpper_spec (s : SymsFilter) (address : UInt64) :
    ∃ symbol, s.filterNearestAddressUpper address = some symbol ∧
      s.symbolTable.Nearest address.toNat symbol := by
  let m := s.symbolTable
  by_cases hbegin : m.upperBound address.toNat = 0
  · refine ⟨none, if_pos hbegin, SortedMap.nearest_none fun e he => ?_⟩
    exact SortedMap.lt_of_deref_upperBound (m := m) (hbegin.symm ▸ he)
  · have hlt : m.upperBound address.toNat - 1 < m.entries.length := by
      have := m.upperBound_le address.toNat
      omega
    obtain ⟨e, he⟩ : ∃ e, m.deref (m.upperBound address.toNat - 1) = some e :=
      ⟨_, List.getElem?_eq_getElem hlt⟩
    refine ⟨some e.2, ?_, SortedMap.nearest_some he ?_ fun e' he' => ?_⟩
    · rw [filterNearestAddressUpper, if_neg hbegin, he]
      rfl
    · exact SortedMap.le_of_deref_upperBound he (Nat.sub_one_lt hbegin)
    · rw [Nat.sub_add_cancel (Nat.pos_of_ne_zero hbegin)] at he'
      exact SortedMap.lt_of_deref_upperBound he'

/-- Below the last key the search ends at an entry. -/
theorem filterNearestAddressLower_spec
    (h : ∃ key ∈ s.symbolTable.keys, address.toNat ≤ key) :
    ∃ symbol, s.filterNearestAddressLower address = some symbol ∧
      s.symbolTable.Nearest address.toNat symbol := by
  let m := s.symbolTable
  obtain ⟨e, he⟩ := Option.isSome_iff_exists.mp (SortedMap.isSome_deref_lowerBound.mpr h)
  have hle : address.toNat ≤ e.1 := SortedMap.le_of_deref_lowerBound he
  rw [filterNearestAddressLower, he]
  simp only [Option.bind_eq_bind, Option.bind_some]
  rcases hle.eq_or_lt with heq | hlt
  · refine ⟨some e.2, if_pos heq.symm, SortedMap.nearest_some he heq.ge fun e' he' => ?_⟩
    exact heq.trans_lt (SortedMap.deref_lt he he' (Nat.lt_succ_self _))
  · rw [if_neg hlt.ne', if_pos hlt]
    by_cases hbegin : m.lowerBound address.toNat = 0
    · refine ⟨none, if_pos hbegin, SortedMap.nearest_none fun e' he' => ?_⟩
      obtain rfl : e = e' := Option.some.inj (he.symm.trans (hbegin.symm ▸ he'))
      exact hlt
    · obtain ⟨e', he'⟩ := SortedMap.exists_deref_of_le he (Nat.sub_le _ 1)
      refine ⟨some e'.2, ?_, SortedMap.nearest_some he' ?_ fun e'' he'' => ?_⟩
      · rw [if_neg hbegin, he']
        rfl
      · exact (SortedMap.lt_of_deref_lowerBound he' (Nat.sub_one_lt hbegin)).le
      · rw [Nat.sub_add_cancel (Nat.pos_of_ne_zero hbegin)] at he''
        obtain rfl : e = e'' := Option.some.inj (he.symm.trans he'')
        exact hlt

/-- Above the last key an entry is read behind the end of the table. -/
theorem filterNearestAddressLower_eq_none
    (h : ¬ ∃ key ∈ s.symbolTable.keys, address.toNat ≤ key) :
    s.filterNearestAddressLower address = none := by
  have hend : s.symbolTable.deref (s.symbolTable.lowerBound address.toNat) = none := by
    rw [← Option.not_isSome_iff_eq_none, SortedMap.isSome_deref_lowerBound]
    exact h
  rw [filterNearestAddressLower, hend]
  rfl

/-- Both lookups read only entries of the table and return the symbol at the
greatest key that is not above the address. -/
def LookupsAgree (s : SymsFilter) (address : UInt64) : Prop :=
  ∃ symbol, s.symbolTable.Nearest address.toNat symbol ∧
    s.filterNearestAddressUpper address = some symbol ∧
    s.filterNearestAddressLower address = some symbol

/-- The lookups agree exactly for an address that some key is not below. -/
theorem lookupsAgree_iff (s : SymsFilter) (address : UInt64) :
    s.LookupsAgree address ↔ ∃ key ∈ s.symbolTable.keys, address.toNat ≤ key := by
  constructor
  · rintro ⟨symbol, -, -, hlower⟩
    by_contra h
    rw [filterNearestAddressLower_eq_none h] at hlower
    cases hlower
  · intro h
    obtain ⟨symbol, hupper, hnearest⟩ := s.filterNearestAddressUpper_spec address
    obtain ⟨symbol', hlower, hnearest'⟩ := filterNearestAddressLower_spec h
    obtain rfl := hnearest.unique hnearest'
    exact ⟨symbol, hnearest, hupper, hlower⟩

/-- An address above the only symbol. -/
theorem not_lookupsAgree_above :
    ¬ LookupsAgree ⟨∅, SortedMap.empty.insert 16 (bytes "start")⟩ 17 := by
  rintro ⟨symbol, -, -, hlower⟩
  exact Option.some_ne_none symbol (hlower.symm.trans rfl)

end Columbo.SymsFilter
