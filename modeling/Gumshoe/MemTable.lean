import Gumshoe.Row
import Gumshoe.Lib.SortedMap

/-!
# The memtable

`mem_table.go` and the collapsing part of `insert.go`. A `MemInterval` holds a B+tree from a
row's dimension bytes to its count and metric bytes, ordered by `bytes.Compare`; the model keeps
the tree as its list of entries in key order (`SortedMap`), which is what a cursor over it
enumerates. Byte strings compare lexicographically under Lean's `Ord (List UInt8)`, a shorter
prefix first, as `bytes.Compare` does.

Inserting a row whose dimension bytes are already in the tree adds its metrics with
`MetricBytes.add` and its count; otherwise the row is stored as it is (`MemInterval.insertRow`).
`MetricBytes.add` adds cell by cell (`readAt_metricBytesAdd`), so on an integer column the stored
cell is the sum of the cells modulo `2 ^ (8 * width)`.
-/

namespace Gumshoe

open Bytes

/-- `b.MetricWithCount`: what the B+tree stores under a row's dimension bytes. -/
structure MetricWithCount where
  count : Nat
  metric : List UInt8
deriving DecidableEq, Repr

/-- `MemInterval`; `stop` is Go's `End`, exclusive. -/
structure MemInterval where
  start : ℤ
  stop : ℤ
  tree : List (List UInt8 × MetricWithCount)

/-- `MemTable`: the intervals by start time, and the dictionaries of new strings. -/
structure MemTable where
  intervals : List (ℤ × MemInterval)
  dimensionTables : List (Option DimensionTable)

/-- `NewMemTable`. -/
def newMemTable (s : Schema) : MemTable := ⟨[], newDimensionTablesForSchema s⟩

/-! ## `MetricBytes.add` -/

section Add

variable (s : Schema)

/-- The loop of `MetricBytes.add` from metric column `i` on: `m`'s cell of each column becomes
the sum of it and `other`'s. -/
def addMetricCells (other : List UInt8) : Nat → List MetricColumn → List UInt8 → List UInt8
  | _, [], m => m
  | i, col :: cols, m =>
    let offset := s.layout.metricOffsets.getD i 0
    addMetricCells other (i + 1) cols
      (writeAt m offset (addCell col.type (readAt m offset col.width) (readAt other offset col.width)))

/-- `MetricBytes.add(s, other)`. -/
def metricBytesAdd (m other : List UInt8) : List UInt8 :=
  addMetricCells s other 0 s.metricColumns m

variable {s}

theorem length_addMetricCells {other : List UInt8} :
    ∀ {i : Nat} {cols : List MetricColumn} {m : List UInt8},
      cols = s.metricColumns.drop i → m.length = s.layout.metricWidth →
      (addMetricCells s other i cols m).length = s.layout.metricWidth
  | _, [], _, _, hm => hm
  | i, col :: cols, m, hcols, hm => by
    obtain ⟨hi, hcol, htail⟩ := cons_eq_drop hcols
    have hb := Schema.metricCell_bounds hi
    apply length_addMetricCells htail
    rw [length_writeAt (by rw [length_addCell, ← col.width_eq, hcol]; omega), hm]

theorem length_metricBytesAdd {m : List UInt8} (other : List UInt8)
    (hm : m.length = s.layout.metricWidth) :
    (metricBytesAdd s m other).length = s.layout.metricWidth :=
  length_addMetricCells List.drop_zero.symm hm

/-- Cell `j` after the loop from column `i`: the sum of the two cells when the loop reaches `j`,
the old cell otherwise. The other columns' cells do not overlap cell `j`, so their writes leave
it alone. -/
theorem readAt_addMetricCells {other : List UInt8} {j : Nat} (hj : j < s.metricColumns.length) :
    ∀ {i : Nat} {cols : List MetricColumn} {m : List UInt8},
      cols = s.metricColumns.drop i → m.length = s.layout.metricWidth →
      readAt (addMetricCells s other i cols m) (s.layout.metricOffsets.getD j 0)
          s.metricColumns[j].width =
        if i ≤ j then
          addCell s.metricColumns[j].type (readAt m (s.layout.metricOffsets.getD j 0)
            s.metricColumns[j].width) (readAt other (s.layout.metricOffsets.getD j 0)
            s.metricColumns[j].width)
        else readAt m (s.layout.metricOffsets.getD j 0) s.metricColumns[j].width
  | i, [], m, hcols, _ => by
    have hij : ¬ i ≤ j := fun hle => by
      rw [List.drop_eq_getElem_cons (by omega)] at hcols
      cases hcols
    rw [if_neg hij]
    rfl
  | i, col :: cols, m, hcols, hm => by
    obtain ⟨hi, rfl, htail⟩ := cons_eq_drop hcols
    have hbi := Schema.metricCell_bounds hi
    have hwidth : (addCell s.metricColumns[i].type
        (readAt m (s.layout.metricOffsets.getD i 0) s.metricColumns[i].width)
        (readAt other (s.layout.metricOffsets.getD i 0) s.metricColumns[i].width)).length =
          s.metricColumns[i].width := by
      rw [length_addCell, s.metricColumns[i].width_eq]
    have hfits : s.layout.metricOffsets.getD i 0 + (addCell s.metricColumns[i].type
        (readAt m (s.layout.metricOffsets.getD i 0) s.metricColumns[i].width)
        (readAt other (s.layout.metricOffsets.getD i 0) s.metricColumns[i].width)).length ≤
          m.length := by
      rw [hwidth, hm]; exact hbi
    simp only [addMetricCells]
    rw [readAt_addMetricCells hj htail (by rw [length_writeAt hfits, hm])]
    rcases Nat.lt_trichotomy i j with hlt | rfl | hgt
    · -- column `i` comes before `j`: its cell ends before cell `j` starts
      have hdisj := Schema.metricCell_disjoint hj hlt
      rw [if_pos (show i + 1 ≤ j from hlt), if_pos hlt.le, readAt_writeAt_of_ge hfits (by rw [hwidth]; exact hdisj)]
    · have hself := readAt_writeAt_self hfits
      rw [hwidth] at hself
      rw [if_neg (show ¬ i + 1 ≤ i by omega), if_pos le_rfl, hself]
    · -- column `i` comes after `j`: cell `j` ends before its cell starts
      have hdisj := Schema.metricCell_disjoint hi hgt
      rw [if_neg (by omega), if_neg (by omega),
        readAt_writeAt_of_le (by rw [hm]; have := Schema.metricCell_bounds hi; omega) hdisj]

/-- `MetricBytes.add` adds cell by cell. -/
theorem readAt_metricBytesAdd {m : List UInt8} (other : List UInt8)
    (hm : m.length = s.layout.metricWidth) {j : Nat} (hj : j < s.metricColumns.length) :
    readAt (metricBytesAdd s m other) (s.layout.metricOffsets.getD j 0) s.metricColumns[j].width =
      addCell s.metricColumns[j].type
        (readAt m (s.layout.metricOffsets.getD j 0) s.metricColumns[j].width)
        (readAt other (s.layout.metricOffsets.getD j 0) s.metricColumns[j].width) := by
  rw [metricBytesAdd, readAt_addMetricCells hj List.drop_zero.symm hm, if_pos (Nat.zero_le j)]

end Add

/-! ## Collapsing a row into an interval -/

/-- The body of `insertRows`' loop once the interval is found: collapse the row into the tree
under its dimension bytes. -/
def MemInterval.insertRow (s : Schema) (iv : MemInterval) (dimensions metrics : List UInt8)
    (count : Nat) : MemInterval :=
  let value :=
    match SortedMap.find? dimensions iv.tree with
    | some v => ⟨v.count + count, metricBytesAdd s v.metric metrics⟩
    | none => ⟨count, metrics⟩
  { iv with tree := SortedMap.insert dimensions value iv.tree }

theorem MemInterval.sorted_insertRow (s : Schema) {iv : MemInterval} (h : SortedMap.Sorted iv.tree)
    (dimensions metrics : List UInt8) (count : Nat) :
    SortedMap.Sorted (iv.insertRow s dimensions metrics count).tree :=
  SortedMap.sorted_insert _ _ h

end Gumshoe
