import Columbo.ReaderDelivery
import Columbo.SymsColumns

/-!
# The loop of `LoadSyms`

Every line that the reader hands out is entered with the address and the name that its
text gives, and the loop ends where the reader finds no line. The loop looks for a line
before it takes it, and the second look finds what the first one found.
-/
namespace Columbo.SymsFilter

open ReaderBuffer

/-- The insertions for some lines, without a filter. -/
def insertions (addressOffset : UInt64) (ls : List Bytes) : List (ℕ × Bytes) :=
  (ls.filterMap symbolOfText).map fun e => ((addressOffset + e.1).toNat, e.2)

/-- A table into which some lines were loaded. -/
def loaded (s : SymsFilter) (addressOffset : UInt64) (ls : List Bytes) : SymsFilter :=
  { s with symbolTable := s.symbolTable.insertAll (insertions addressOffset ls) }

variable {B : ℕ} {s : SymsFilter} {reader : ReaderBuffer B} {addressOffset : UInt64} {fuel : ℕ}

theorem loaded_append (s : SymsFilter) (addressOffset : UInt64) (ls ls' : List Bytes) :
    (s.loaded addressOffset ls).loaded addressOffset ls' = s.loaded addressOffset (ls ++ ls') := by
  simp only [loaded, insertions, List.filterMap_append, List.map_append,
    SortedMap.insertAll_append]

theorem loadLine_eq (hfilter : s.symbolFilter = ∅) (l mem : Bytes) :
    s.loadLine addressOffset (.ofLine l (kLineEnd :: mem)) = s.loaded addressOffset [l] := by
  rw [loadLine, symbolOfLine_eq (atText_ofLine l mem), loaded, insertions]
  cases hsymbol : symbolOfText l with
  | none => simp [hsymbol, SortedMap.insertAll]
  | some e => simp [hsymbol, addToSymTable, hfilter, SortedMap.insertAll]

theorem loadLoop_of_found (addressOffset : UInt64) (fuel : ℕ) (hfilter : s.symbolFilter = ∅)
    (hr : Inv reader) (hfound : Found reader) {k : ℕ} {l ys : Bytes}
    (hline : StartsLine kLineEnd reader.pending k l ys) :
    ∃ reader' : ReaderBuffer B, Inv reader' ∧ reader'.pending = ys ∧
      loadLoop addressOffset (fuel + 1) s reader =
        loadLoop addressOffset fuel (s.loaded addressOffset [l]) reader' := by
  obtain ⟨found, r₁, hlook, hl⟩ := hasStillLine_spec hr
  obtain rfl := hl.found_iff.mpr hfound
  have hagain := hasStillLine_cached hl.inv (hl.cached_iff.mpr rfl)
  obtain ⟨j, l', mem, r₂, hnext, hr₂, hline', -⟩ := nextHandler_of_found hr hfound
  obtain ⟨-, rfl, hys⟩ := hline.unique hline'
  have hnext₁ : nextHandler r₁ = nextHandler reader := by
    simp only [nextHandler, hlook, hagain]
  refine ⟨r₂, hr₂, hys.symm, ?_⟩
  simp only [loadLoop, hlook, Option.bind_eq_bind, Option.bind_some, if_true, hnext₁, hnext,
    loadLine_eq hfilter]

theorem loadLoop_of_not_found (hr : Inv reader) (hfound : ¬ Found reader) :
    loadLoop addressOffset (fuel + 1) s reader = some s := by
  obtain ⟨found, r₁, hlook, hl⟩ := hasStillLine_spec hr
  have hno : ¬ found = true := fun h => hfound (hl.found_iff.mp h)
  simp only [loadLoop, hlook, Option.bind_eq_bind, Option.bind_some, if_neg hno]
  rfl

/-- Lines that follow one another are loaded up to the first one that does not fit into
the block. -/
theorem loadLoop_lines {ls : List Bytes} (hls : ∀ l ∈ ls, l ≠ [] ∧ kLineEnd ∉ l) (j : ℕ)
    (hfilter : s.symbolFilter = ∅) (hr : Inv reader)
    (hpending : reader.pending = ls.flatMap (· ++ [kLineEnd]) ++ List.replicate j kLineEnd)
    (hfuel : reader.pending.length < fuel) :
    loadLoop addressOffset fuel s reader =
      some (s.loaded addressOffset (ls.takeWhile fun l => l.length < B)) := by
  induction ls generalizing s reader fuel with
  | nil =>
    obtain ⟨fuel, rfl⟩ : ∃ n, fuel = n + 1 := ⟨fuel - 1, by omega⟩
    refine loadLoop_of_not_found hr fun hfound => ?_
    obtain ⟨k, l, ys, hline, -⟩ := short_of_found hr hfound
    rw [hpending] at hline
    exact not_startsLine_replicate hline
  | cons l ls ih =>
    obtain ⟨fuel, rfl⟩ : ∃ n, fuel = n + 1 := ⟨fuel - 1, by omega⟩
    obtain ⟨hl, hls⟩ := List.forall_mem_cons.mp hls
    have hline : StartsLine kLineEnd reader.pending 0 l
        (ls.flatMap (· ++ [kLineEnd]) ++ List.replicate j kLineEnd) :=
      ⟨by simp [hpending], hl.1, hl.2⟩
    have hlength := hline.length_eq
    by_cases hfits : l.length < B
    · obtain ⟨r', hr', hpending', hloop⟩ :=
        loadLoop_of_found addressOffset fuel hfilter hr (found_of_fits hline (by omega)) hline
      have hfilter' : (s.loaded addressOffset [l]).symbolFilter = ∅ := hfilter
      rw [hloop, ih hls hfilter' hr' hpending' (by rw [hpending']; omega), loaded_append,
        List.takeWhile_cons, if_pos (by simpa using hfits)]
      rfl
    · rw [List.takeWhile_cons, if_neg (by simpa using hfits)]
      refine loadLoop_of_not_found hr fun hfound => ?_
      obtain ⟨k, l', ys, hline', hlt⟩ := short_of_found hr hfound
      obtain ⟨-, rfl, -⟩ := hline.unique hline'
      exact hfits hlt

end Columbo.SymsFilter
