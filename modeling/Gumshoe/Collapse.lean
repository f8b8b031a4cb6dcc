import Gumshoe.Interval
import Gumshoe.Lib.Aggregate
import Mathlib.Algebra.Group.Prod
import Mathlib.Algebra.Group.Pi.Basic

/-!
# What a collapsed row stands for

A row of the memtable or of a static interval stands for every logical row collapsed into it:
its count is their number, and on an integer column its metric cell holds the sum of their
values, in the column's own width. `Aggregate` is that meaning, exact: a count and, per metric
column, the integer sum. `Represents s v a` says the stored value `v` has `a`'s count and, in
each cell, `a`'s sum modulo `2 ^ (8 * width)`.

**Theorem (`Represents.combineValues`).** On a schema whose metric columns are integers, adding
two stored values (`combineValues`, what both `insertRows` and `WriteCombinedInterval` do to
equal keys) represents the sum of what they represent.

So a memtable tree tracks (`SortedMap.Tracks`) the rows inserted into it
(`Tracks.insertRow`), and the merge of a tree with a static interval tracks both histories.
Read back, a cell is the column type's value of the exact sum (`toInt?_metricCell`).
-/

namespace Gumshoe

open Bytes SortedMap

/-- The exact meaning of a collapsed row: its count, and the sum of each metric column. -/
abbrev Aggregate := ℕ × (ℕ → ℤ)

/-- Every metric column holds integers. -/
def Schema.IntegerMetrics (s : Schema) : Prop := ∀ c ∈ s.metricColumns, c.type.isFloat = false

instance (s : Schema) : Decidable s.IntegerMetrics :=
  inferInstanceAs (Decidable (∀ c ∈ s.metricColumns, c.type.isFloat = false))

section Cells

variable (s : Schema)

/-- The bit pattern of metric cell `j` of the metric bytes. -/
def metricCell (metric : List UInt8) (j : Nat) : Nat :=
  match s.metricColumns[j]? with
  | some c => cellBits metric (s.layout.metricOffsets.getD j 0) c.type
  | none => 0

/-- The value `NumericCellValue` reads from metric cell `j`, as an integer. -/
def metricValue (metric : List UInt8) (j : Nat) : ℤ :=
  match s.metricColumns[j]? with
  | some c => wrapInt c.type (metricCell s metric j)
  | none => 0

/-- What one inserted row stands for: its count and the values of its cells. -/
def aggregateOf (v : MetricWithCount) : Aggregate := (v.count, metricValue s v.metric)

/-- `v` stands for `a`: `a`'s count, and in each metric cell `a`'s sum modulo the width. -/
structure Represents (v : MetricWithCount) (a : Aggregate) : Prop where
  count_eq : v.count = a.1
  length_eq : v.metric.length = s.layout.metricWidth
  cell_eq : ∀ j (hj : j < s.metricColumns.length),
    (metricCell s v.metric j : ℤ) = a.2 j % 2 ^ (8 * typeWidths s.metricColumns[j].type)

variable {s}

theorem metricCell_eq {metric : List UInt8} {j : Nat} (hj : j < s.metricColumns.length) :
    metricCell s metric j =
      cellBits metric (s.layout.metricOffsets.getD j 0) s.metricColumns[j].type := by
  simp [metricCell, List.getElem?_eq_getElem hj]

theorem metricValue_eq {metric : List UInt8} {j : Nat} (hj : j < s.metricColumns.length) :
    metricValue s metric j = wrapInt s.metricColumns[j].type (metricCell s metric j) := by
  simp [metricValue, List.getElem?_eq_getElem hj]

theorem metricCell_lt (metric : List UInt8) {j : Nat} (hj : j < s.metricColumns.length) :
    metricCell s metric j < 2 ^ (8 * typeWidths s.metricColumns[j].type) := by
  rw [metricCell_eq hj, cellBits, two_pow_eq_256_pow]
  calc decodeLE _ < 256 ^ (readAt metric _ _).length := decodeLE_lt _
    _ ≤ 256 ^ typeWidths s.metricColumns[j].type :=
      Nat.pow_le_pow_right (by decide) (by simp [readAt])

/-- A value wrapped into a column type is the value, modulo the width. -/
theorem wrapInt_emod_two_pow (t : ColType) (v : ℤ) :
    wrapInt t v % 2 ^ (8 * typeWidths t) = v % 2 ^ (8 * typeWidths t) := by
  unfold wrapInt
  split
  · exact_mod_cast Int.bmod_emod
  · exact Int.emod_emod_of_dvd v dvd_rfl

/-- One row's own bytes stand for what it holds. -/
theorem represents_aggregateOf {v : MetricWithCount} (h : v.metric.length = s.layout.metricWidth) :
    Represents s v (aggregateOf s v) := by
  refine ⟨rfl, h, fun j hj => ?_⟩
  have hlt := metricCell_lt v.metric hj
  have hnn : (0 : ℤ) ≤ metricCell s v.metric j := Int.natCast_nonneg _
  show (metricCell s v.metric j : ℤ) = metricValue s v.metric j % _
  rw [metricValue_eq hj, wrapInt_emod_two_pow, Int.emod_eq_of_lt hnn (by exact_mod_cast hlt)]

/-- On an integer column, `MetricBytes.add` adds each cell modulo its width. -/
theorem metricCell_metricBytesAdd (hint : s.IntegerMetrics) {m : List UInt8} (other : List UInt8)
    (hm : m.length = s.layout.metricWidth) {j : Nat} (hj : j < s.metricColumns.length) :
    metricCell s (metricBytesAdd s m other) j =
      (metricCell s m j + metricCell s other j) % 2 ^ (8 * typeWidths s.metricColumns[j].type) := by
  have hfloat := hint _ (List.getElem_mem hj)
  have hwidth := s.metricColumns[j].width_eq
  rw [metricCell_eq hj, metricCell_eq hj, metricCell_eq hj, cellBits, cellBits, cellBits, ← hwidth,
    readAt_metricBytesAdd other hm hj, decodeLE_addCell hfloat, hwidth]

/-- Adding two stored values represents the sum of what they represent. -/
theorem Represents.combineValues (hint : s.IntegerMetrics) {v₁ v₂ : MetricWithCount}
    {a₁ a₂ : Aggregate} (h₁ : Represents s v₁ a₁) (h₂ : Represents s v₂ a₂) :
    Represents s (Gumshoe.combineValues s v₁ v₂) (a₁ + a₂) where
  count_eq := by simp [Gumshoe.combineValues, h₁.count_eq, h₂.count_eq]
  length_eq := length_metricBytesAdd _ h₁.length_eq
  cell_eq j hj := by
    simp only [Gumshoe.combineValues]
    rw [metricCell_metricBytesAdd hint _ h₁.length_eq hj]
    push_cast
    rw [h₁.cell_eq j hj, h₂.cell_eq j hj, Prod.snd_add, Pi.add_apply, ← Int.add_emod]

/-- Read back as the column's type, a represented cell is the exact sum wrapped into that
type: the sum itself when the type can hold it. -/
theorem toInt?_metricCell {v : MetricWithCount} {a : Aggregate} (h : Represents s v a)
    (hint : s.IntegerMetrics) {j : Nat} (hj : j < s.metricColumns.length) :
    (numericCellValue v.metric (s.layout.metricOffsets.getD j 0) s.metricColumns[j].type).toInt? =
      some (wrapInt s.metricColumns[j].type (a.2 j)) := by
  have hfloat := hint _ (List.getElem_mem hj)
  rw [numericCellValue, ← metricCell_eq hj, toInt?_ofCellBits hfloat (metricCell_lt _ hj),
    h.cell_eq j hj, wrapInt_emod]

end Cells

/-! ## Trees that track their rows -/

/-- Collapsing a row into a memtable interval absorbs it into the tree with `combineValues`. -/
theorem MemInterval.insertRow_tree (s : Schema) (iv : MemInterval) (dimensions metrics : List UInt8)
    (count : Nat) :
    (iv.insertRow s dimensions metrics count).tree =
      absorb (combineValues s) dimensions ⟨count, metrics⟩ iv.tree := by
  simp only [MemInterval.insertRow, absorb]
  cases SortedMap.find? dimensions iv.tree <;> rfl

/-- A tree that tracks its rows still does after one more is collapsed into it. -/
theorem Tracks.insertRow {s : Schema} {R : MetricWithCount → Aggregate → Prop}
    (hR : ∀ v₁ v₂ a₁ a₂, R v₁ a₁ → R v₂ a₂ → R (combineValues s v₁ v₂) (a₁ + a₂))
    {iv : MemInterval} {l : List (List UInt8 × Aggregate)} (ht : Tracks R iv.tree l)
    {dimensions metrics : List UInt8} {count : Nat} {a : Aggregate}
    (hv : R ⟨count, metrics⟩ a) :
    Tracks R (iv.insertRow s dimensions metrics count).tree (l ++ [(dimensions, a)]) := by
  rw [MemInterval.insertRow_tree]
  exact ht.absorb hR hv

end Gumshoe
