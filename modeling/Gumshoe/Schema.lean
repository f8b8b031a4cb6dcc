import Gumshoe.Types
import Gumshoe.Lib.GoCall

/-!
# Schemas

`schema.go`: the columns of a database, the row layout that `Schema.Initialize` derives from
them, and `Schema.Equivalent`, the check `openDBDir` makes between the schema stored in `db.json`
and the one it is given.

A row is `count | nil bytes | dim1 | … | dimN | metric1 | … | metricM`. `Schema.layout`
computes the layout as Go's loops do; the lemmas below it say that the nil bits fit in the nil
bytes (`length_le_eight_mul_nilBytes`), that the dimension cells lie after the nil bytes and
before `DimensionWidth` without overlapping (`dimensionCell_*`), the same for metric cells, and
that the parts add up to `RowSize` (`rowSize_eq`).

`equivalent_eq_ok_iff` says exactly what `Equivalent` checks: the timestamp column, the
dimension columns, the segment size, and that the stored metric columns are a prefix of the
given ones. It compares neither the number of metric columns nor `IntervalDuration`, and its
metric loop indexes the given schema's columns by the stored schema's indices, so it panics when
the given schema has fewer (`equivalent_accepts_and_panics`).
-/

namespace Gumshoe

open Bytes

/-- `countColumnWidth`: a row starts with its `uint32` count. -/
def countColumnWidth : Nat := 4

/-- `Column`. Every column the program builds (`MakeMetricColumn`, `MakeDimensionColumn`, and
the `db.json` written from a schema of those) has `Width = typeWidths[Type]`; the structure
carries that. -/
structure Column where
  type : ColType
  name : String
  width : Nat
  width_eq : width = typeWidths type
deriving DecidableEq

/-- `MetricColumn`: Go's `type MetricColumn Column`. -/
abbrev MetricColumn := Column

/-- `DimensionColumn`: a column, and whether its cells are indices into a dictionary of
strings. -/
structure DimensionColumn extends Column where
  string : Bool
deriving DecidableEq

/-- The column `{Type: typ, Name: name, Width: typeWidths[typ]}`. -/
def Column.make (name : String) (typ : ColType) : Column := ⟨typ, name, typeWidths typ, rfl⟩

/-- `MakeMetricColumn`. -/
def makeMetricColumn (name typeString : String) : Go MetricColumn :=
  match nameToType typeString with
  | none => .error ("bad type: " ++ typeString)
  | some typ => .ok (Column.make name typ)

/-- `MakeDimensionColumn`. -/
def makeDimensionColumn (name typeString : String) (isString : Bool) : Go DimensionColumn :=
  match nameToType typeString with
  | none => .error ("bad type: " ++ typeString)
  | some typ => .ok { Column.make name typ with string := isString }

/-- `RunConfig`, without the size of the query worker pool (scans are modelled one after the
other). -/
structure RunConfig where
  fixedRetention : Bool
  retention : ℤ
deriving DecidableEq, Repr

/-- `Schema`: the persisted fields, the disk settings and the run configuration. The fields
`Initialize` fills in are `Schema.layout`. -/
structure Schema where
  timestampColumn : Column
  dimensionColumns : List DimensionColumn
  metricColumns : List MetricColumn
  segmentSize : Nat
  intervalDuration : ℤ
  diskBacked : Bool
  dir : String
  runConfig : RunConfig
deriving DecidableEq

/-! ## The layout -/

/-- The fields `Initialize` derives. -/
structure Layout where
  dimensionNameToIndex : String → Option Nat
  metricNameToIndex : String → Option Nat
  dimensionStartOffset : Nat
  dimensionOffsets : List Nat
  dimensionWidth : Nat
  metricStartOffset : Nat
  metricOffsets : List Nat
  metricWidth : Nat
  nilBytes : Nat
  rowSize : Nat
  /-- the retention after `fillDefaults` -/
  retention : ℤ

/-- The Go map that the loop `for i, k := range keys { m[k] = f(i) }` leaves, started from
the map `m` at index `i`: a later key wins a repeated one. -/
def assignIndices {β : Type} (f : Nat → β) (m : String → Option β) :
    Nat → List String → String → Option β
  | _, [] => m
  | i, k :: keys => assignIndices f (fun n => if n = k then some (f i) else m n) (i + 1) keys

/-- On distinct keys, the loop maps each key to `f` of its position. -/
theorem assignIndices_of_nodup {β : Type} (f : Nat → β) :
    ∀ (m : String → Option β) (i : Nat) {keys : List String}, keys.Nodup → ∀ v,
      assignIndices f m i keys v = match keys.idxOf? v with
        | some k => some (f (i + k))
        | none => m v
  | m, i, [], _, v => by simp [assignIndices]
  | m, i, k :: keys, hnd, v => by
    obtain ⟨hk, hnd'⟩ := List.nodup_cons.mp hnd
    rw [assignIndices, assignIndices_of_nodup f _ (i + 1) hnd' v, List.idxOf?_cons]
    by_cases hv : v = k
    · subst hv
      have : keys.idxOf? v = none := List.idxOf?_eq_none_iff.mpr hk
      simp [this]
    · have hkv : (k == v) = false := by simpa using Ne.symm hv
      cases keys.idxOf? v <;> simp [hv, hkv, Nat.add_assoc, Nat.add_comm 1]

/-- A loop's columns from `i` on, taken apart at their head. -/
theorem cons_eq_drop {α : Type} {l : List α} {c : α} {cs : List α} {i : Nat}
    (h : c :: cs = l.drop i) : ∃ hi : i < l.length, c = l[i] ∧ cs = l.drop (i + 1) := by
  have hi : i < l.length := by
    by_contra hle
    rw [List.drop_eq_nil_of_le (by omega)] at h
    cases h
  rw [List.drop_eq_getElem_cons hi] at h
  exact ⟨hi, (List.cons.inj h).1, (List.cons.inj h).2⟩

/-- `m[col.Name] = i` over the columns. -/
def nameToIndex (names : List String) : String → Option Nat :=
  assignIndices id (fun _ => none) 0 names

/-- `Schema.Initialize`: the layout it fills in. -/
def Schema.layout (s : Schema) : Layout :=
  let dimWidths := s.dimensionColumns.map (·.width)
  let metricWidths := s.metricColumns.map (·.width)
  -- `(len(s.DimensionColumns)-1)/8 + 1` with Go's truncating division: one byte when there are
  -- no dimension columns
  let nilBytes := (((dimWidths.length : ℤ) - 1).tdiv 8 + 1).toNat
  { dimensionNameToIndex := nameToIndex (s.dimensionColumns.map (·.name))
    metricNameToIndex := nameToIndex (s.metricColumns.map (·.name))
    dimensionStartOffset := countColumnWidth
    dimensionOffsets := offsets nilBytes dimWidths
    dimensionWidth := nilBytes + dimWidths.sum
    metricStartOffset := countColumnWidth + (nilBytes + dimWidths.sum)
    metricOffsets := offsets 0 metricWidths
    metricWidth := metricWidths.sum
    nilBytes := nilBytes
    rowSize := countColumnWidth + nilBytes + dimWidths.sum + metricWidths.sum
    -- `fillDefaults`: seven days when unset
    retention := if s.runConfig.retention ≤ 0 then 7 * 24 * 3600 * 1000000000
      else s.runConfig.retention }

namespace Schema

variable (s : Schema)

/-- `NilBytes` in natural-number arithmetic. -/
theorem nilBytes_eq : s.layout.nilBytes = (s.dimensionColumns.length - 1) / 8 + 1 := by
  simp only [layout, List.length_map]
  cases s.dimensionColumns.length with
  | zero => decide
  | succ m =>
    have h : ((m + 1 : ℕ) : ℤ) - 1 = (m : ℤ) := by push_cast; ring
    rw [h, Int.tdiv_eq_ediv_of_nonneg (by positivity)]
    omega

/-- The nil bits, one per dimension column, fit in the nil bytes. -/
theorem length_le_eight_mul_nilBytes :
    s.dimensionColumns.length ≤ 8 * s.layout.nilBytes := by
  rw [nilBytes_eq]
  omega

theorem metricStartOffset_eq :
    s.layout.metricStartOffset =
      s.layout.dimensionStartOffset + s.layout.dimensionWidth := rfl

theorem rowSize_eq :
    s.layout.rowSize = s.layout.metricStartOffset + s.layout.metricWidth := by
  simp only [layout]
  omega

/-! ### Cells -/

variable {s} {i j : Nat}

/-- Dimension cell `i` lies after the nil bytes and within `DimensionWidth`. -/
theorem dimensionCell_bounds (hi : i < s.dimensionColumns.length) :
    s.layout.nilBytes ≤ s.layout.dimensionOffsets.getD i 0 ∧
      s.layout.dimensionOffsets.getD i 0 + s.dimensionColumns[i].width ≤
        s.layout.dimensionWidth := by
  have hlen : i < (s.dimensionColumns.map (·.width)).length := by simpa using hi
  have hw : (s.dimensionColumns.map (·.width)).getD i 0 = s.dimensionColumns[i].width := by
    simp [List.getD_eq_getElem?_getD, hi]
  have hend := @offsets_add_le_sum s.layout.nilBytes i _ hlen
  rw [hw] at hend
  exact ⟨le_offsets hlen, hend⟩

/-- Dimension cells do not overlap. -/
theorem dimensionCell_disjoint (hj : j < s.dimensionColumns.length) (hij : i < j) :
    s.layout.dimensionOffsets.getD i 0 + s.dimensionColumns[i].width ≤
      s.layout.dimensionOffsets.getD j 0 := by
  have hlen : j < (s.dimensionColumns.map (·.width)).length := by simpa using hj
  have hw : (s.dimensionColumns.map (·.width)).getD i 0 = s.dimensionColumns[i].width := by
    simp [List.getD_eq_getElem?_getD, show i < s.dimensionColumns.length by omega]
  have h := @offsets_add_le_of_lt s.layout.nilBytes i j _ hlen hij
  rwa [hw] at h

/-- Metric cell `i` lies within `MetricWidth`. -/
theorem metricCell_bounds (hi : i < s.metricColumns.length) :
    s.layout.metricOffsets.getD i 0 + s.metricColumns[i].width ≤ s.layout.metricWidth := by
  have hlen : i < (s.metricColumns.map (·.width)).length := by simpa using hi
  have hw : (s.metricColumns.map (·.width)).getD i 0 = s.metricColumns[i].width := by
    simp [List.getD_eq_getElem?_getD, hi]
  have h := @offsets_add_le_sum 0 i _ hlen
  rw [hw, Nat.zero_add] at h
  exact h

/-- Metric cells do not overlap. -/
theorem metricCell_disjoint (hj : j < s.metricColumns.length) (hij : i < j) :
    s.layout.metricOffsets.getD i 0 + s.metricColumns[i].width ≤
      s.layout.metricOffsets.getD j 0 := by
  have hlen : j < (s.metricColumns.map (·.width)).length := by simpa using hj
  have hw : (s.metricColumns.map (·.width)).getD i 0 = s.metricColumns[i].width := by
    simp [List.getD_eq_getElem?_getD, show i < s.metricColumns.length by omega]
  have h := @offsets_add_le_of_lt 0 i j _ hlen hij
  rwa [hw] at h

/-! ### The row as a partition -/

variable (s)

theorem dimensionOffsets_eq :
    s.layout.dimensionOffsets = offsets s.layout.nilBytes (s.dimensionColumns.map (·.width)) := rfl

theorem metricOffsets_eq : s.layout.metricOffsets = offsets 0 (s.metricColumns.map (·.width)) := rfl

theorem metricStartOffset_eq_sum :
    s.layout.metricStartOffset =
      countColumnWidth + (s.layout.nilBytes + (s.dimensionColumns.map (·.width)).sum) := rfl

theorem rowSize_eq_sum :
    s.layout.rowSize = countColumnWidth + s.layout.nilBytes + (s.dimensionColumns.map (·.width)).sum +
      (s.metricColumns.map (·.width)).sum := rfl

/-- A row holds at least its count. -/
theorem rowSize_pos : 0 < s.layout.rowSize := by
  rw [rowSize_eq_sum]
  have : 0 < countColumnWidth := by decide
  omega

/-- The parts of a row as `[start, stop)` ranges, where the layout puts them: the count, the nil
bytes, each dimension cell and each metric cell. -/
def rowCells : List (Nat × Nat) :=
  (0, countColumnWidth) :: (countColumnWidth, countColumnWidth + s.layout.nilBytes) ::
    (List.zipWith (fun o (c : DimensionColumn) =>
        (s.layout.dimensionStartOffset + o, s.layout.dimensionStartOffset + o + c.width))
      s.layout.dimensionOffsets s.dimensionColumns ++
    List.zipWith (fun o (c : MetricColumn) =>
        (s.layout.metricStartOffset + o, s.layout.metricStartOffset + o + c.width))
      s.layout.metricOffsets s.metricColumns)

@[simp] theorem length_dimensionOffsets :
    s.layout.dimensionOffsets.length = s.dimensionColumns.length := by
  rw [dimensionOffsets_eq, length_offsets, List.length_map]

@[simp] theorem length_metricOffsets : s.layout.metricOffsets.length = s.metricColumns.length := by
  rw [metricOffsets_eq, length_offsets, List.length_map]

/-- The row has one part for the count, one for the nil bytes and one for each column. -/
theorem length_rowCells :
    s.rowCells.length = 2 + s.dimensionColumns.length + s.metricColumns.length := by
  simp only [rowCells, List.length_cons, List.length_append, List.length_zipWith,
    length_dimensionOffsets, length_metricOffsets, Nat.min_self]
  omega

/-- Cell `i` of columns laid end to end from `start` at the offsets `offs`. -/
theorem getElem?_zipWith_cell {α : Type} (start : Nat) (width : α → Nat) {offs : List Nat}
    {cols : List α} {i : Nat} (hoff : i < offs.length) (hi : i < cols.length) :
    (List.zipWith (fun o c => (start + o, start + o + width c)) offs cols)[i]? =
      some (start + offs.getD i 0, start + offs.getD i 0 + width cols[i]) := by
  rw [List.getElem?_zipWith, List.getElem?_eq_getElem hoff, List.getElem?_eq_getElem hi,
    List.getD_eq_getElem?_getD, List.getElem?_eq_getElem hoff]
  rfl

/-- Part `2 + i` of the row is the cell of dimension column `i`. -/
theorem rowCells_getElem?_dimension {i : Nat} (hi : i < s.dimensionColumns.length) :
    s.rowCells[2 + i]? =
      some (s.layout.dimensionStartOffset + s.layout.dimensionOffsets.getD i 0,
        s.layout.dimensionStartOffset + s.layout.dimensionOffsets.getD i 0 +
          s.dimensionColumns[i].width) := by
  rw [rowCells, show 2 + i = i + 1 + 1 by omega, List.getElem?_cons_succ, List.getElem?_cons_succ,
    List.getElem?_append_left]
  · refine getElem?_zipWith_cell _ (·.width) ?_ hi
    simpa using hi
  · simpa using hi

/-- Part `2 + len(DimensionColumns) + j` of the row is the cell of metric column `j`. -/
theorem rowCells_getElem?_metric {j : Nat} (hj : j < s.metricColumns.length) :
    s.rowCells[2 + s.dimensionColumns.length + j]? =
      some (s.layout.metricStartOffset + s.layout.metricOffsets.getD j 0,
        s.layout.metricStartOffset + s.layout.metricOffsets.getD j 0 +
          s.metricColumns[j].width) := by
  rw [rowCells, show 2 + s.dimensionColumns.length + j = s.dimensionColumns.length + j + 1 + 1
    by omega, List.getElem?_cons_succ, List.getElem?_cons_succ, List.getElem?_append_right]
  · -- the dimension cells take the first `len(DimensionColumns)` places
    rw [List.length_zipWith, length_dimensionOffsets, Nat.min_self, Nat.add_sub_cancel_left]
    refine getElem?_zipWith_cell _ (·.width) ?_ hj
    simpa using hj
  · simp

/-- The parts of a row are the tiling from 0 by the widths of the count, the nil bytes, the
dimension columns and the metric columns. -/
theorem rowCells_eq_tile :
    s.rowCells = tile 0 (countColumnWidth :: s.layout.nilBytes ::
      (s.dimensionColumns.map (·.width) ++ s.metricColumns.map (·.width))) := by
  have hd := zipWith_offsets s.layout.dimensionStartOffset s.layout.nilBytes
    (s.dimensionColumns.map (·.width))
  have hm := zipWith_offsets s.layout.metricStartOffset 0 (s.metricColumns.map (·.width))
  rw [List.zipWith_map_right, ← dimensionOffsets_eq] at hd
  rw [List.zipWith_map_right, ← metricOffsets_eq] at hm
  -- the metric cells start where the dimension cells end
  have hstart : s.layout.metricStartOffset + 0 =
      0 + countColumnWidth + s.layout.nilBytes + (s.dimensionColumns.map (·.width)).sum := by
    rw [metricStartOffset_eq_sum]
    omega
  rw [rowCells, hd, hm, hstart, tile, tile, tile_append]
  rfl

end Schema

/-- `Initialize` lays a row out as a partition: the count, the nil bytes and the cells come in
order without overlapping and cover exactly `[0, RowSize)`; the nil bytes hold a bit for every
dimension column, so the nil byte `DimensionStartOffset + (i >> 3)` of dimension `i` lies inside
them; and the dimension and metric widths are the spans between the offsets. -/
theorem Schema.layout_partition (s : Schema) :
    (s.layout.dimensionOffsets.length = s.dimensionColumns.length ∧
      s.layout.metricOffsets.length = s.metricColumns.length) ∧
    s.rowCells.length = 2 + s.dimensionColumns.length + s.metricColumns.length ∧
      s.rowCells[0]? = some (0, countColumnWidth) ∧
      s.rowCells[1]? = some (countColumnWidth, countColumnWidth + s.layout.nilBytes) ∧
      (∀ i (hi : i < s.dimensionColumns.length), s.rowCells[2 + i]? =
        some (s.layout.dimensionStartOffset + s.layout.dimensionOffsets.getD i 0,
          s.layout.dimensionStartOffset + s.layout.dimensionOffsets.getD i 0 +
            s.dimensionColumns[i].width)) ∧
      (∀ j (hj : j < s.metricColumns.length), s.rowCells[2 + s.dimensionColumns.length + j]? =
        some (s.layout.metricStartOffset + s.layout.metricOffsets.getD j 0,
          s.layout.metricStartOffset + s.layout.metricOffsets.getD j 0 +
            s.metricColumns[j].width)) ∧
      s.rowCells.Pairwise (fun a b => a.2 ≤ b.1) ∧
      (∀ p, p < s.layout.rowSize ↔ ∃ c ∈ s.rowCells, c.1 ≤ p ∧ p < c.2) ∧
      s.dimensionColumns.length ≤ 8 * s.layout.nilBytes ∧
      (∀ i < s.dimensionColumns.length,
        countColumnWidth ≤ s.layout.dimensionStartOffset + (i >>> 3) ∧
          s.layout.dimensionStartOffset + (i >>> 3) < countColumnWidth + s.layout.nilBytes) ∧
      s.layout.dimensionWidth = s.layout.metricStartOffset - s.layout.dimensionStartOffset ∧
      s.layout.metricWidth = s.layout.rowSize - s.layout.metricStartOffset := by
  have hsum : (countColumnWidth :: s.layout.nilBytes ::
      (s.dimensionColumns.map (·.width) ++ s.metricColumns.map (·.width))).sum =
      s.layout.rowSize := by
    rw [Schema.rowSize_eq_sum, List.sum_cons, List.sum_cons, List.sum_append]
    omega
  have hnil := s.length_le_eight_mul_nilBytes
  refine ⟨⟨s.length_dimensionOffsets, s.length_metricOffsets⟩, s.length_rowCells, rfl, rfl,
    fun i hi => s.rowCells_getElem?_dimension hi, fun j hj => s.rowCells_getElem?_metric hj,
    s.rowCells_eq_tile ▸ tile_pairwise 0 _, fun p => ?_, hnil, fun i hi => ?_,
    by rw [Schema.metricStartOffset_eq]; omega, by rw [Schema.rowSize_eq]; omega⟩
  · rw [s.rowCells_eq_tile, exists_mem_tile_iff, hsum]
    omega
  · have hdso : s.layout.dimensionStartOffset = countColumnWidth := rfl
    rw [hdso, Nat.shiftRight_eq_div_pow]
    omega

/-! ## `Equivalent` -/

/-- Go's `%v` of a `Column`, `{uint32 name 4}` (a `Type` prints its name). -/
def Column.format (c : Column) : String :=
  "\x7b" ++ typeNames c.type ++ " " ++ c.name ++ " " ++ toString c.width ++ "\x7d"

/-- Go's `%v` of a `DimensionColumn`, `{{uint32 name 4} true}`. -/
def DimensionColumn.format (c : DimensionColumn) : String :=
  "\x7b" ++ c.toColumn.format ++ " " ++ toString c.string ++ "\x7d"

/-- `for i, col := range cols { if col != others[i] { return err } }`, from index `i` on: the
loop of `Equivalent` over one kind of column. Indexing `others` past its end panics. -/
def compareColumns {α : Type} [DecidableEq α] (format : α → String) (kind : String)
    (others : List α) : Nat → List α → Go Unit
  | _, [] => .ok ()
  | i, col :: cols =>
    match others[i]? with
    | none =>
      .panic ("runtime error: index out of range [" ++ toString i ++ "] with length " ++
        toString others.length)
    | some other =>
      if col ≠ other then
        .error ("expected " ++ kind ++ " column at index " ++ toString i ++ " to be " ++
          format col ++ "; got " ++ format other)
      else compareColumns format kind others (i + 1) cols

/-- `Schema.Equivalent(other)`. The segment sizes are printed by go-humanize's `Bytes`, a float
formatter that is not modelled: it is the parameter `humanize`. -/
def Schema.equivalent (humanize : Nat → String) (s other : Schema) : Go Unit :=
  Go.mapError ("Schemas do not match: " ++ ·) <|
    if s.timestampColumn ≠ other.timestampColumn then
      .error ("expected timestamp column " ++ s.timestampColumn.format ++ "; got " ++
        other.timestampColumn.format)
    else if s.dimensionColumns.length ≠ other.dimensionColumns.length then
      .error ("expected " ++ toString s.dimensionColumns.length ++ " dimension columns; got " ++
        toString other.dimensionColumns.length)
    else do
      compareColumns DimensionColumn.format "dimension" other.dimensionColumns 0 s.dimensionColumns
      compareColumns Column.format "metric" other.metricColumns 0 s.metricColumns
      if s.segmentSize ≠ other.segmentSize then
        .error ("expected segment size of " ++ humanize s.segmentSize ++ "; got " ++
          humanize other.segmentSize)
      else .ok ()

section Equivalent

variable {α : Type} [DecidableEq α] {format : α → String} {kind : String}

/-- The column loop succeeds exactly when `cols` is the stretch of `others` from index `i`. -/
theorem compareColumns_eq_ok {others : List α} :
    ∀ {i : Nat} {cols : List α}, compareColumns format kind others i cols = .ok () ↔
      cols <+: others.drop i
  | _, [] => by simp [compareColumns]
  | i, col :: cols => by
    have ih : compareColumns format kind others (i + 1) cols = .ok () ↔
        cols <+: others.drop (i + 1) := compareColumns_eq_ok
    rw [compareColumns]
    cases h : others[i]? with
    | none =>
      have : others.length ≤ i := by simpa using h
      simp [List.drop_eq_nil_of_le this]
    | some other =>
      obtain ⟨hi, rfl⟩ := List.getElem?_eq_some_iff.mp h
      rw [List.drop_eq_getElem_cons hi, List.cons_prefix_cons, ← ih]
      by_cases hc : col = others[i] <;> simp [hc]

/-- `Equivalent` accepts exactly the schemas with the same timestamp column, dimension columns
and segment size, whose metric columns extend the stored ones. -/
theorem equivalent_eq_ok_iff (humanize : Nat → String) (s other : Schema) :
    s.equivalent humanize other = .ok () ↔
      s.timestampColumn = other.timestampColumn ∧
      s.dimensionColumns = other.dimensionColumns ∧
      s.metricColumns <+: other.metricColumns ∧
      s.segmentSize = other.segmentSize := by
  simp only [Schema.equivalent, Go.mapError_eq_ok]
  by_cases hts : s.timestampColumn = other.timestampColumn
  · by_cases hlen : s.dimensionColumns.length = other.dimensionColumns.length
    · simp only [hts, hlen, ne_eq, not_true_eq_false, if_false, true_and]
      rw [Go.bind_eq_ok]
      -- the dimension loop, on lists of equal length, succeeds iff the lists are equal
      have hdim : s.dimensionColumns <+: other.dimensionColumns.drop 0 ↔
          s.dimensionColumns = other.dimensionColumns := by
        rw [List.drop_zero]
        exact ⟨fun h => h.eq_of_length hlen, fun h => h ▸ List.prefix_refl _⟩
      constructor
      · rintro ⟨u, hd, hrest⟩
        rw [Go.bind_eq_ok] at hrest
        obtain ⟨v, hm, hseg⟩ := hrest
        cases u
        cases v
        refine ⟨hdim.mp (compareColumns_eq_ok.mp hd), ?_, ?_⟩
        · simpa using compareColumns_eq_ok.mp hm
        · by_contra hne
          simp [hne] at hseg
      · rintro ⟨hd, hm, hseg⟩
        refine ⟨(), compareColumns_eq_ok.mpr (hdim.mpr hd), ?_⟩
        rw [Go.bind_eq_ok]
        exact ⟨(), compareColumns_eq_ok.mpr (by simpa using hm), by simp [hseg]⟩
    · have hne : s.dimensionColumns ≠ other.dimensionColumns := fun h => hlen (h ▸ rfl)
      simp [hts, hlen, hne]
  · simp [hts]

/-- A stored schema with one `uint32` metric and one-hour intervals. -/
def storedWithOneMetric : Schema :=
  ⟨Column.make "at" .uint32, [], [Column.make "clicks" .uint32], 1000, 3600 * 1000000000, true,
    "db", ⟨true, 0⟩⟩

/-- The same schema with a second metric and one-minute intervals. -/
def givenWithTwoMetrics : Schema :=
  { storedWithOneMetric with
    metricColumns := [Column.make "clicks" .uint32, Column.make "views" .uint32]
    intervalDuration := 60 * 1000000000 }

/-- `Equivalent` accepts a schema with a different number of metric columns and a different
interval duration, and panics when the arguments are swapped. -/
theorem equivalent_accepts_and_panics (humanize : Nat → String) :
    storedWithOneMetric.equivalent humanize givenWithTwoMetrics = .ok () ∧
      storedWithOneMetric.metricColumns.length ≠ givenWithTwoMetrics.metricColumns.length ∧
      storedWithOneMetric.intervalDuration ≠ givenWithTwoMetrics.intervalDuration ∧
      givenWithTwoMetrics.equivalent humanize storedWithOneMetric =
        .panic "runtime error: index out of range [1] with length 1" := by
  refine ⟨?_, by decide, by decide, rfl⟩
  rw [equivalent_eq_ok_iff]
  exact ⟨rfl, rfl, ⟨[Column.make "views" .uint32], rfl⟩, rfl⟩

end Equivalent

end Gumshoe
