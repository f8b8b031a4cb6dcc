import Gumshoe.Filters

/-!
# Running a query

`query.go`: `StaticTable.InvokeQuery` checks a query against the schema, compiles its sums, its
grouping and its filters (`Filters.lean`), scans every interval whose start second passes the
timestamp filters, combines the partial results of the intervals per group, and turns them into
rows (`postProcessScanRows`).

A scan takes one of three strategies. Without a grouping, `scanSimple` sums the rows that pass the
filters. With a grouping on a dimension column at most two bytes wide, or on a string column with
a small dictionary (`useSliceGrouping`), `scanSliceGrouping` keeps the partials in a slice indexed
by the dimension's value as an `int`. Otherwise `scanMapGrouping` keys a map by the group value;
grouping on the timestamp column, it makes the interval's partial before it reads any row.

Sums are kept as bit patterns of the 64-bit types `TypeToBigType` names, as Go keeps them in byte
slices, and added in those types; counts are `uint32`, in the partials and in the result.

Go ranges over the map of intervals in no fixed order and hands the scans to a pool of workers;
the model scans the intervals in the order of their start times. The order decides only the order
of the result rows and the rounding of float sums. A panic in a worker ends the program, which the
model reports as the query's panic.
-/

namespace Gumshoe

open Bytes

/-! ## Parameters of a scan -/

/-- `sumFunc`: adds a row's metric to a partial sum, both as bit patterns. -/
abbrev SumFunc := Nat → List UInt8 → Nat

/-- `groupingParams`. The transform is only built for `uint32` columns, and reads the cell as
one. -/
structure GroupingParams where
  onTimestampColumn : Bool
  columnIndex : Nat
  transformFunc : Option (UInt32 → Untyped)

/-- `scanParams`. -/
structure ScanParams where
  timestampFilterFuncs : List TimestampFilterFunc
  filterFuncs : List FilterFunc
  sumColumns : List MetricColumn
  sumFuncs : List SumFunc
  grouping : Option GroupingParams

/-- Go's addition in a big type, on bit patterns: integers modulo `2 ^ 64`, `float64` in IEEE
arithmetic. -/
def addBig (big : ColType) (a b : Nat) : Nat :=
  match big with
  | .float64 => (Float.ofBits (UInt64.ofNat a) + Float.ofBits (UInt64.ofNat b)).toBits.toNat
  | _ => (a + b) % 2 ^ 64

/-- `Big(x)` for a cell of type `typ` with bit pattern `bits`, as a bit pattern of the big type:
integers sign-extended (unsigned ones kept), `float32` widened exactly. -/
def toBigBits (typ : ColType) (bits : Nat) : Nat :=
  match typ with
  | .float32 => (Float32.ofBits (UInt32.ofNat bits)).toFloat.toBits.toNat
  | .float64 => bits
  | t => (wrapInt t bits % 2 ^ 64).toNat

/-- `makeSumFuncGen(typ)(offset)`: `*(*Big)(sum) += Big(*(*T)(&metrics[offset]))`. -/
def makeSumFuncGen (typ : ColType) (offset : Nat) : SumFunc :=
  fun sum metrics => addBig (typeToBigType typ) sum (toBigBits typ (cellBits metrics offset typ))

/-- `StaticTable.makeSumFunc`. -/
def Schema.makeSumFunc (s : Schema) (index : Nat) : Go SumFunc := do
  let col ← s.metricColumn index
  -- the column exists, so its offset does
  pure (makeSumFuncGen col.type (s.layout.metricOffsets.getD index 0))

/-- `makeTimeTruncationFunc`: the start of the minute, hour or day of a `uint32` second. The
caller never passes `TimeTruncationNone`. -/
def makeTimeTruncationFunc (truncationType : TimeTruncationType) (column : Column) :
    Go (UInt32 → Untyped) :=
  if column.type ≠ .uint32 then .error "cannot apply timestamp truncation to non-uint32 column"
  else
    let divisor : ℤ := match truncationType with
      | .none => 0
      | .minute => 60
      | .hour => 60 * 60
      | .day => 60 * 60 * 24
    .ok fun cell =>
      let value : ℤ := cell.toNat
      .int (Int64.ofInt (value - value % divisor))

/-! ## Partial results -/

/-- `scanPartial`: the sums as bit patterns of their big types, and the count. -/
structure ScanPartial where
  sums : List Nat
  count : UInt32
deriving DecidableEq

/-- `makeScanPartial`: zero sums. -/
def makeScanPartial (params : ScanParams) : ScanPartial := ⟨params.sumColumns.map fun _ => 0, 0⟩

/-- `RowBytes.count`: the row's leading `uint32`. -/
def rowCount (row : List UInt8) : UInt32 := UInt32.ofNat (decodeLE (row.take countColumnWidth))

/-- The end of the row loop of every scan: each sum adds its column of the row's metrics, and the
count adds the row's count. -/
def ScanPartial.addRow (s : Schema) (params : ScanParams) (part : ScanPartial)
    (row : List UInt8) : ScanPartial :=
  let metrics := row.drop s.layout.metricStartOffset
  ⟨List.zipWith (fun sum sumFn => sumFn sum metrics) part.sums params.sumFuncs,
    part.count + rowCount row⟩

/-- `rowAggregate`. -/
structure RowAggregate where
  groupByValue : Untyped
  sums : List Untyped
  count : UInt32

/-- `combineScanPartials`: the sums added in their big types, partial by partial, and the
counts. -/
def combineScanPartials (params : ScanParams) (results : List ScanPartial)
    (groupByValue : Untyped) : RowAggregate :=
  let bigs := params.sumColumns.map (typeToBigType ·.type)
  let sums := results.foldl (fun acc part => List.zipWith3 addBig bigs acc part.sums)
    (bigs.map fun _ => 0)
  ⟨groupByValue, List.zipWith ofCellBits bigs sums,
    results.foldl (fun count part => count + part.count) 0⟩

/-! ## Scans -/

/-- The panic of slicing past the capacity `n`. -/
def sliceBoundsOutOfRange (high n : Nat) : String :=
  "runtime error: slice bounds out of range [:" ++ toString high ++ "] with capacity " ++
    toString n

/-- The row loop of every scan, `for i := 0; i < len(bytes); i += RowSize`, its body `step` on
`row := bytes[i : i+RowSize]`; a last row cut short panics, as the slice expression does. `fuel`
bounds the rows. -/
def forEachRow {σ : Type} (rowSize : Nat) (step : σ → List UInt8 → Go σ) (bytes : List UInt8) :
    Nat → Nat → σ → Go σ
  | 0, _, acc => .ok acc
  | fuel + 1, i, acc =>
    if i < bytes.length then
      if i + rowSize ≤ bytes.length then do
        let acc' ← step acc ((bytes.drop i).take rowSize)
        forEachRow rowSize step bytes fuel (i + rowSize) acc'
      else .panic (sliceBoundsOutOfRange (i + rowSize) bytes.length)
    else .ok acc

/-- The loop over an interval's segments around the row loop; a row takes at least one byte, so
a segment's length is enough fuel. -/
def forEachSegmentRow {σ : Type} (s : Schema) (step : σ → List UInt8 → Go σ) (acc : σ)
    (segments : List Segment) : Go σ :=
  segments.foldlM (fun acc segment =>
    forEachRow s.layout.rowSize step segment.bytes segment.bytes.length 0 acc) acc

section Scan

variable (s : Schema) (st : StaticTable) (params : ScanParams)

/-- The nil bit and the cell of the grouping dimension `i`: `nilOffset`, `nilMask` and
`valueOffset`. -/
def dimensionCell (i : Nat) : Nat × UInt8 × Nat :=
  (s.layout.dimensionStartOffset + i / 8, 1 <<< (i % 8).toUInt8,
    s.layout.dimensionStartOffset + s.layout.dimensionOffsets.getD i 0)

/-- `scanSimple`. -/
def scanSimple (interval : Interval) : Go ScanPartial :=
  forEachSegmentRow s (fun part row =>
      .ok (if params.filterFuncs.all (· row) then part.addRow s params row else part))
    (makeScanPartial params) interval.segments

/-- `sliceGroupPartials`. -/
structure SliceGroupPartials where
  slicePartials : List (Option ScanPartial)
  nilPartial : Option ScanPartial

/-- `makeGetDimensionValueAsIntFuncGen(typ)(cell)`: `int(*(*T)(cell))`, on the integer types
slice grouping uses. -/
def makeGetDimensionValueAsIntFuncGen (typ : ColType) (row : List UInt8) (offset : Nat) : ℤ :=
  (numericCellValue row offset typ).toInt?.getD 0

/-- `useSliceGrouping`. -/
def useSliceGrouping (grouping : GroupingParams) : Go Bool :=
  if grouping.transformFunc.isSome then .ok false
  else if grouping.onTimestampColumn then .ok false
  else do
    let groupingColumn ← s.dimensionColumn grouping.columnIndex
    if groupingColumn.width ≤ 2 then .ok true
    else if groupingColumn.string then do
      let table ← st.dimensionTable grouping.columnIndex
      -- `sliceGroupingSizeLimit`
      .ok (decide (table.size ≤ 500000))
    else .ok false

/-- `scanSliceGrouping`: the partial of a row sits at the index its dimension value gives. -/
def scanSliceGrouping (grouping : GroupingParams) (interval : Interval) :
    Go SliceGroupPartials := do
  let groupingColumn ← s.dimensionColumn grouping.columnIndex
  let width := groupingColumn.width
  let sliceGroupSize ← if groupingColumn.string then do
      let table ← st.dimensionTable grouping.columnIndex
      pure table.size
    else if width ≤ 2 then pure (2 ^ (8 * width))
    else .panic "trying to use slice grouping for wide (>2 byte), non-string column"
  if grouping.onTimestampColumn then .panic "using slices for timestamp column group is unhandled"
  else if grouping.transformFunc.isSome then .panic "using slices for grouping with transform func"
  else
    let (nilOffset, nilMask, valueOffset) := dimensionCell s grouping.columnIndex
    let step := fun (acc : SliceGroupPartials) (row : List UInt8) =>
      if params.filterFuncs.all (· row) then
        if rowNil row nilOffset nilMask then
          .ok { acc with
            nilPartial := some ((acc.nilPartial.getD (makeScanPartial params)).addRow s params row) }
        else
          let index := makeGetDimensionValueAsIntFuncGen groupingColumn.type row valueOffset
          if 0 ≤ index ∧ index < sliceGroupSize then
            let addTo := fun (slot : Option ScanPartial) =>
              some ((slot.getD (makeScanPartial params)).addRow s params row)
            .ok { acc with slicePartials := acc.slicePartials.modify index.toNat addTo }
          else .panic (indexOutOfRange index sliceGroupSize)
      else .ok acc
    forEachSegmentRow s step ⟨List.replicate sliceGroupSize none, none⟩ interval.segments

/-- Go's `==` on two `interface{}` values, which a map applies to its keys: the same dynamic type
and equal values, floats compared in IEEE (so a NaN equals nothing), and `nil` equal to `nil`.
JSON booleans, arrays and objects never become keys here. -/
def Untyped.interfaceEq : Untyped → Untyped → Bool
  | .nil, .nil => true
  | .string a, .string b => a == b
  | .float64 a, .float64 b => (Untyped.float64 a).goEq (.float64 b)
  | .float32 a, .float32 b => (Untyped.float32 a).goEq (.float32 b)
  | .uint8 a, .uint8 b => a == b
  | .int8 a, .int8 b => a == b
  | .uint16 a, .uint16 b => a == b
  | .int16 a, .int16 b => a == b
  | .uint32 a, .uint32 b => a == b
  | .int32 a, .int32 b => a == b
  | .uint64 a, .uint64 b => a == b
  | .int64 a, .int64 b => a == b
  | .int a, .int b => a == b
  | _, _ => false

/-- A Go map keyed by `Untyped` values, as its entries in the order they were added. A key finds
the entry whose key is `==` to it, so a NaN key finds none. -/
abbrev UntypedMap (α : Type) := List (Untyped × α)

/-- `m[key]`. -/
def UntypedMap.get? {α : Type} (m : UntypedMap α) (key : Untyped) : Option α :=
  (m.find? (·.1.interfaceEq key)).map (·.2)

/-- Update the entry of `key` by `f`, or add one with `f none`: the entry keeps the key it was
added with. -/
def UntypedMap.upsert {α : Type} (m : UntypedMap α) (key : Untyped) (f : Option α → α) :
    UntypedMap α :=
  match m.findIdx? (·.1.interfaceEq key) with
  | some i => m.modify i fun (k, v) => (k, f (some v))
  | none => m ++ [(key, f none)]

/-- `scanMapGrouping`: the partial of a row is the one of its group value. -/
def scanMapGrouping (grouping : GroupingParams) (timestamp : ℤ)
    (interval : Interval) : Go (UntypedMap ScanPartial) := do
  let groupingColumn ← if grouping.onTimestampColumn then pure s.timestampColumn
    else DimensionColumn.toColumn <$> s.dimensionColumn grouping.columnIndex
  let (nilOffset, nilMask, valueOffset) := dimensionCell s grouping.columnIndex
  -- grouping on the timestamp column, the interval's one partial is made before any row is read
  let timestampKey : Untyped := match grouping.transformFunc with
    | none => .uint32 (intervalSecond timestamp)
    | some transformFunc => transformFunc (intervalSecond timestamp)
  let mapPartials : UntypedMap ScanPartial :=
    if grouping.onTimestampColumn then [(timestampKey, makeScanPartial params)] else []
  let step := fun (acc : UntypedMap ScanPartial) (row : List UInt8) =>
    if params.filterFuncs.all (· row) then
      let key : Untyped :=
        if grouping.onTimestampColumn then timestampKey
        else if rowNil row nilOffset nilMask then .nil
        else match grouping.transformFunc with
          | some transformFunc => transformFunc (UInt32.ofNat (cellBits row valueOffset .uint32))
          | none => numericCellValue row valueOffset groupingColumn.type
      .ok (acc.upsert key fun part =>
        (part.getD (makeScanPartial params)).addRow s params row)
    else .ok acc
  forEachSegmentRow s step mapPartials interval.segments

end Scan

/-! ## Combining the partials -/

/-- `combineSimple`: one row, even from no interval. -/
def combineSimple (params : ScanParams) (partials : List ScanPartial) : List RowAggregate :=
  [combineScanPartials params partials .nil]

/-- `combineSliceGrouping`: the nil group first, then every index some interval has a partial
for, its group value the index. -/
def combineSliceGrouping (params : ScanParams) (partials : List SliceGroupPartials) :
    List RowAggregate :=
  let nilGroupPartials := partials.filterMap (·.nilPartial)
  let nilRows := if nilGroupPartials.isEmpty then []
    else [combineScanPartials params nilGroupPartials .nil]
  match partials with
  | [] => nilRows
  | first :: _ =>
    nilRows ++ (List.range first.slicePartials.length).filterMap fun i =>
      let singleIndexPartials := partials.filterMap (·.slicePartials.getD i none)
      if singleIndexPartials.isEmpty then none
      else some (combineScanPartials params singleIndexPartials (.int (Int64.ofNat i)))

/-- `combineMapGrouping`: every key of every map, once; a key that finds no partial (NaN) gives
no row. -/
def combineMapGrouping (params : ScanParams) (mapPartials : List (UntypedMap ScanPartial)) :
    List RowAggregate :=
  let allKeys : UntypedMap Unit := mapPartials.foldl (fun keys mapPartial =>
    mapPartial.foldl (fun keys entry => keys.upsert entry.1 fun _ => ()) keys) []
  allKeys.filterMap fun (k, _) =>
    let partials := mapPartials.filterMap (·.get? k)
    if partials.isEmpty then none else some (combineScanPartials params partials k)

section Invoke

variable (fmtG : F64 → String) (s : Schema) (st : StaticTable)

/-- `scan`: the intervals whose start second passes every timestamp filter, each scanned by the
strategy of the grouping, and the partials combined. -/
def scan (params : ScanParams) : Go (List RowAggregate) := do
  let intervals := st.intervals.filter fun (timestamp, _) =>
    params.timestampFilterFuncs.all (· (intervalSecond timestamp))
  match params.grouping with
  | none => do
    let partials ← intervals.mapM fun (_, interval) => scanSimple s params interval
    pure (combineSimple params partials)
  | some grouping => do
    if ← useSliceGrouping s st grouping then do
      let partials ← intervals.mapM fun (_, interval) =>
        scanSliceGrouping s st params grouping interval
      pure (combineSliceGrouping params partials)
    else do
      let partials ← intervals.mapM fun (timestamp, interval) =>
        scanMapGrouping s params grouping timestamp interval
      pure (combineMapGrouping params partials)

/-- `UntypedToFloat64`. -/
def untypedToFloat64 : Untyped → Float
  | .float32 bits => (Float32.ofBits bits).toFloat
  | .float64 f => Float.ofBits f.bits
  | u => Float.ofInt (u.toInt?.getD 0)

/-- `postProcessScanRows`: a row map per aggregate row, with the sums (or averages) under the
aggregates' names, the group value under the grouping's name (a string column's index decoded
through its dictionary), and the count under `rowCount`. -/
def postProcessScanRows (aggregates : List RowAggregate) (query : Query)
    (grouping : Option GroupingParams) : Go (List RowMap) :=
  aggregates.mapM fun aggregate => do
    let row := query.aggregates.zipIdx.foldl (fun row (queryAggregate, i) =>
      row.set queryAggregate.name (match queryAggregate.type with
        | .sum => aggregate.sums.getD i .nil
        | .avg => .float64 ⟨(untypedToFloat64 (aggregate.sums.getD i .nil) /
            Float.ofNat aggregate.count.toNat).toBits⟩)) RowMap.empty
    let row ← match grouping with
      | none => pure row
      | some grouping => do
        let value ← if aggregate.groupByValue ≠ .nil ∧ !grouping.onTimestampColumn then do
            let col ← s.dimensionColumn grouping.columnIndex
            if col.string then do
              let dimensionIndex := aggregate.groupByValue.toInt?.getD 0
              let table ← st.dimensionTable grouping.columnIndex
              if h : 0 ≤ dimensionIndex ∧ dimensionIndex.toNat < table.values.length then
                pure (.string (table.values.get ⟨dimensionIndex.toNat, h.2⟩))
              else .panic (indexOutOfRange dimensionIndex table.values.length)
            else pure aggregate.groupByValue
          else pure aggregate.groupByValue
        pure (row.set ((query.groupings.head?.map (·.name)).getD "") value)
    pure (row.set "rowCount" (.uint32 aggregate.count))

/-- The filter loop of `InvokeQuery`: a filter on the timestamp column, else on a dimension, else
on a metric column. -/
def compileFilters :
    List QueryFilter → Go (List TimestampFilterFunc × List FilterFunc)
  | [] => .ok ([], [])
  | queryFilter :: filters => do
    if queryFilter.column = s.timestampColumn.name then do
      let filter ← makeTimestampFilterFunc fmtG queryFilter
      let (timestampFilterFuncs, filterFuncs) ← compileFilters filters
      pure (filter :: timestampFilterFuncs, filterFuncs)
    else do
      let filter ← match s.layout.dimensionNameToIndex queryFilter.column with
        | some index => makeDimensionFilterFunc fmtG s st queryFilter index
        | none => match s.layout.metricNameToIndex queryFilter.column with
          | some index => makeMetricFilterFunc fmtG s queryFilter index
          | none => .error (goQuote queryFilter.column ++ " (in a filter) is not a recognized column")
      let (timestampFilterFuncs, filterFuncs) ← compileFilters filters
      pure (timestampFilterFuncs, filter :: filterFuncs)

/-- The grouping of `InvokeQuery`: on the timestamp column or a dimension, with a time
truncation when one is asked for. -/
def Schema.groupingParams (groupingOptions : QueryGrouping) : Go GroupingParams := do
  let (onTimestampColumn, columnIndex, groupingColumn) ←
    if groupingOptions.column = s.timestampColumn.name then pure (true, 0, s.timestampColumn)
    else match s.layout.dimensionNameToIndex groupingOptions.column with
      | none => .error (groupingOptions.column ++
          " (used for grouping) is not a valid dimension column name")
      | some index => do
        let col ← s.dimensionColumn index
        pure (false, index, col.toColumn)
  let transformFunc ← if groupingOptions.timeTransform = .none then pure none
    else some <$> makeTimeTruncationFunc groupingOptions.timeTransform groupingColumn
  pure ⟨onTimestampColumn, columnIndex, transformFunc⟩

/-- `StaticTable.InvokeQuery`. -/
def invokeQuery (query : Query) : Go (List RowMap) := do
  let sums ← query.aggregates.mapM fun aggregate =>
    match s.layout.metricNameToIndex aggregate.column with
    | none => .error (aggregate.column ++
        " (selected for aggregation) is not a valid metric column name")
    | some index => do
      let sumFunc ← s.makeSumFunc index
      let col ← s.metricColumn index
      pure (col, sumFunc)
  if query.groupings.length > 1 then .error "more than 1 grouping is not supported at the moment"
  else do
    let grouping ← match query.groupings with
      | [] => pure none
      | groupingOptions :: _ => some <$> s.groupingParams groupingOptions
    let (timestampFilterFuncs, filterFuncs) ← compileFilters fmtG s st query.filters
    let params : ScanParams :=
      ⟨timestampFilterFuncs, filterFuncs, sums.map (·.1), sums.map (·.2), grouping⟩
    let rows ← scan s st params
    postProcessScanRows s st rows query grouping

end Invoke

/-! ## The rows a scan reads -/

/-- The rows the row loop reads from byte `i` on: `RowSize` bytes from each offset below the
length. -/
def rowSlices (rowSize : Nat) (bytes : List UInt8) : Nat → Nat → List (List UInt8)
  | 0, _ => []
  | fuel + 1, i =>
    if i < bytes.length then
      (bytes.drop i).take rowSize :: rowSlices rowSize bytes fuel (i + rowSize)
    else []

/-- The rows of an interval, segment after segment. -/
def intervalRows (s : Schema) (interval : Interval) : List (List UInt8) :=
  interval.segments.flatMap fun segment =>
    rowSlices s.layout.rowSize segment.bytes segment.bytes.length 0

/-- Every segment of the interval holds whole rows. -/
def WholeRows (s : Schema) (interval : Interval) : Prop :=
  ∀ segment ∈ interval.segments, s.layout.rowSize ∣ segment.bytes.length

instance (s : Schema) (interval : Interval) : Decidable (WholeRows s interval) :=
  inferInstanceAs (Decidable (∀ segment ∈ interval.segments, _))

/-- On whole rows the row loop never cuts a row short: it runs its body over the slices. -/
theorem forEachRow_eq_foldlM {σ : Type} {rowSize : Nat} {step : σ → List UInt8 → Go σ}
    {bytes : List UInt8} : ∀ (fuel i : Nat) (acc : σ), rowSize ∣ bytes.length - i →
    forEachRow rowSize step bytes fuel i acc = (rowSlices rowSize bytes fuel i).foldlM step acc
  | 0, _, _, _ => rfl
  | fuel + 1, i, acc, hdiv => by
    unfold forEachRow rowSlices
    by_cases hi : i < bytes.length
    · -- a whole row is left from `i` on
      have hrow : rowSize ≤ bytes.length - i := Nat.le_of_dvd (by omega) hdiv
      have hfit : i + rowSize ≤ bytes.length := by omega
      have hdiv' : rowSize ∣ bytes.length - (i + rowSize) := by
        rw [← Nat.sub_sub]
        exact Nat.dvd_sub hdiv (dvd_refl rowSize)
      simp only [hi, hfit, if_true, List.foldlM_cons]
      congr 1
      funext acc'
      exact forEachRow_eq_foldlM fuel (i + rowSize) acc' hdiv'
    · simp [hi]

/-- On whole rows the segment loop runs its body over the rows of the segments in turn. -/
theorem foldlM_forEachRow {σ : Type} {s : Schema} {step : σ → List UInt8 → Go σ} :
    ∀ (segments : List Segment) (acc : σ),
    (∀ segment ∈ segments, s.layout.rowSize ∣ segment.bytes.length) →
    forEachSegmentRow s step acc segments =
      (segments.flatMap fun segment =>
        rowSlices s.layout.rowSize segment.bytes segment.bytes.length 0).foldlM step acc
  | [], _, _ => rfl
  | segment :: segments, acc, hwhole => by
    unfold forEachSegmentRow at *
    rw [List.foldlM_cons, List.flatMap_cons, List.foldlM_append,
      forEachRow_eq_foldlM _ 0 acc (by simpa using hwhole segment List.mem_cons_self)]
    congr 1
    funext acc'
    exact foldlM_forEachRow segments acc' fun seg hseg => hwhole seg (List.mem_cons_of_mem _ hseg)

/-- On whole rows the segment loop runs its body over the interval's rows. -/
theorem forEachSegmentRow_eq_foldlM {σ : Type} {s : Schema} {step : σ → List UInt8 → Go σ}
    {interval : Interval} (hwhole : WholeRows s interval) (acc : σ) :
    forEachSegmentRow s step acc interval.segments = (intervalRows s interval).foldlM step acc :=
  foldlM_forEachRow interval.segments acc hwhole

/-- What every successful step of the row loop keeps holds when the loop succeeds, on any
bytes. -/
theorem forEachRow_inv {σ : Type} {P : σ → Prop} {rowSize : Nat} {step : σ → List UInt8 → Go σ}
    {bytes : List UInt8} (hstep : ∀ acc row acc', P acc → step acc row = .ok acc' → P acc') :
    ∀ {fuel i : Nat} {acc acc' : σ}, P acc →
      forEachRow rowSize step bytes fuel i acc = .ok acc' → P acc'
  | 0, _, acc, acc', hacc, h => by
    simp only [forEachRow, Go.ok.injEq] at h
    exact h ▸ hacc
  | fuel + 1, i, acc, acc', hacc, h => by
    unfold forEachRow at h
    -- a row cut short panics, which `split_ifs` discharges
    split_ifs at h with hi hfit
    · obtain ⟨acc₁, h₁, h₂⟩ := Go.bind_eq_ok.mp h
      exact forEachRow_inv hstep (hstep _ _ _ hacc h₁) h₂
    · cases h
      exact hacc

/-- What every successful step of the row loop keeps holds when the segment loop succeeds. -/
theorem forEachSegmentRow_inv {σ : Type} {P : σ → Prop} {s : Schema}
    {step : σ → List UInt8 → Go σ} (hstep : ∀ acc row acc', P acc → step acc row = .ok acc' → P acc')
    {segments : List Segment} {acc acc' : σ} (hacc : P acc)
    (h : forEachSegmentRow s step acc segments = .ok acc') : P acc' :=
  Go.foldlM_inv (fun _ _ _ _ hp hrun => forEachRow_inv hstep hp hrun) hacc h

/-! ## Counting without a grouping -/

section Simple

variable {s : Schema} {params : ScanParams}

/-- The body of `scanSimple`'s row loop. -/
def addIfSelected (s : Schema) (params : ScanParams) (part : ScanPartial) (row : List UInt8) :
    ScanPartial :=
  if params.filterFuncs.all (· row) then part.addRow s params row else part

/-- The rows a query's filters select: in the intervals whose start second passes every
timestamp filter, the rows that pass every row filter. -/
def selectedRows (s : Schema) (st : StaticTable) (timestampFilterFuncs : List TimestampFilterFunc)
    (filterFuncs : List FilterFunc) : List (List UInt8) :=
  (st.intervals.filter fun (timestamp, _) =>
      timestampFilterFuncs.all (· (intervalSecond timestamp))).flatMap fun (_, interval) =>
    (intervalRows s interval).filter fun row => filterFuncs.all (· row)

/-- The sum of the counts of rows, as numbers. -/
def countSum (rows : List (List UInt8)) : Nat := (rows.map fun row => (rowCount row).toNat).sum

theorem scanSimple_eq {interval : Interval} (hwhole : WholeRows s interval) :
    scanSimple s params interval =
      .ok ((intervalRows s interval).foldl (addIfSelected s params) (makeScanPartial params)) := by
  rw [scanSimple, forEachSegmentRow_eq_foldlM hwhole]
  exact List.foldlM_pure

/-- The counts of rows added as `uint32`s are their sum as numbers, modulo `2 ^ 32`. -/
theorem ofNat_countSum : ∀ rows : List (List UInt8),
    UInt32.ofNat (countSum rows) = (rows.map rowCount).sum
  | [] => rfl
  | row :: rows => by
    have ih := ofNat_countSum rows
    simp only [countSum] at ih ⊢
    rw [List.map_cons, List.sum_cons, UInt32.ofNat_add, UInt32.ofNat_toNat, ih, List.map_cons,
      List.sum_cons]

/-- A partial adds the counts of the rows it is given that pass the filters. -/
theorem count_foldl_addIfSelected : ∀ (rows : List (List UInt8)) (part : ScanPartial),
    (rows.foldl (addIfSelected s params) part).count =
      part.count + ((rows.filter fun row => params.filterFuncs.all (· row)).map rowCount).sum
  | [], part => by simp
  | row :: rows, part => by
    rw [List.foldl_cons, count_foldl_addIfSelected rows, List.filter_cons]
    unfold addIfSelected
    by_cases hrow : params.filterFuncs.all (· row) = true
    · simp only [hrow, if_true, ScanPartial.addRow, List.map_cons, List.sum_cons]
      ac_rfl
    · simp [hrow]

/-- The combined count is the sum of the partials' counts. -/
theorem count_combineScanPartials (results : List ScanPartial) (groupByValue : Untyped) :
    (combineScanPartials params results groupByValue).count = (results.map (·.count)).sum := by
  -- the fold of the counts, from any start
  have hfold : ∀ (rs : List ScanPartial) (c : UInt32),
      rs.foldl (fun count part => count + part.count) c = c + (rs.map (·.count)).sum := by
    intro rs
    induction rs with
    | nil => simp
    | cons r rs ih =>
      intro c
      rw [List.foldl_cons, ih, List.map_cons, List.sum_cons]
      ac_rfl
  simp [combineScanPartials, hfold]

variable {st : StaticTable}

/-- Without a grouping, `scan` scans each selected interval into one partial and combines them
into one row. -/
theorem scan_of_grouping_none (hnone : params.grouping = none)
    (hwhole : ∀ iv ∈ st.intervals, WholeRows s iv.2) :
    scan s st params = .ok (combineSimple params
      ((st.intervals.filter fun (timestamp, _) =>
          params.timestampFilterFuncs.all (· (intervalSecond timestamp))).map fun iv =>
        (intervalRows s iv.2).foldl (addIfSelected s params) (makeScanPartial params))) := by
  have hscan : ∀ iv ∈ st.intervals.filter (fun (timestamp, _) =>
      params.timestampFilterFuncs.all (· (intervalSecond timestamp))),
      scanSimple s params iv.2 =
        .ok ((intervalRows s iv.2).foldl (addIfSelected s params) (makeScanPartial params)) :=
    fun iv hiv => scanSimple_eq (hwhole iv (List.mem_of_mem_filter hiv))
  rw [scan, hnone]
  simp only
  rw [Go.mapM_eq_ok_map hscan]
  rfl

/-- The one row of a scan without grouping counts the selected rows, modulo `2 ^ 32`. -/
theorem count_scan_of_grouping_none (hnone : params.grouping = none)
    (hwhole : ∀ iv ∈ st.intervals, WholeRows s iv.2) :
    ∃ aggregate, scan s st params = .ok [aggregate] ∧
      aggregate.count =
        UInt32.ofNat (countSum (selectedRows s st params.timestampFilterFuncs params.filterFuncs)) := by
  refine ⟨_, scan_of_grouping_none hnone hwhole, ?_⟩
  rw [count_combineScanPartials, ofNat_countSum, selectedRows, List.map_flatMap, List.flatMap_def,
    List.sum_flatten, List.map_map, List.map_map]
  congr 1
  apply List.map_congr_left
  intro iv _
  simp [count_foldl_addIfSelected, makeScanPartial]

end Simple

/-- Without a grouping, `postProcessScanRows` gives one row map per aggregate row, with its count
under `rowCount`. -/
theorem postProcessScanRows_rowCount {s : Schema} {st : StaticTable} (aggregate : RowAggregate)
    (query : Query) :
    ∃ row, postProcessScanRows s st [aggregate] query none = .ok [row] ∧
      row.get? "rowCount" = some (.uint32 aggregate.count) := by
  simp only [postProcessScanRows, List.mapM_cons, List.mapM_nil]
  exact ⟨_, rfl, RowMap.get?_set_self _ _ _⟩

/-- A query without a grouping that succeeds returns one row map, whose `rowCount` is the sum of
the counts of the rows its compiled filters select, modulo `2 ^ 32`. -/
theorem invokeQuery_rowCount {fmtG : F64 → String} {s : Schema} {st : StaticTable} {query : Query}
    {rows : List RowMap} (hgroup : query.groupings = [])
    (hwhole : ∀ iv ∈ st.intervals, WholeRows s iv.2)
    (h : invokeQuery fmtG s st query = .ok rows) :
    ∃ timestampFilterFuncs filterFuncs row,
      compileFilters fmtG s st query.filters = .ok (timestampFilterFuncs, filterFuncs) ∧
      rows = [row] ∧
      row.get? "rowCount" = some (.uint32
        (UInt32.ofNat (countSum (selectedRows s st timestampFilterFuncs filterFuncs)))) := by
  rw [invokeQuery, hgroup] at h
  obtain ⟨sums, -, h⟩ := Go.bind_eq_ok.mp h
  -- no grouping: the scan runs with `grouping := none`
  rw [if_neg (by simp)] at h
  simp only [Go.pure_eq, Go.ok_bind] at h
  obtain ⟨⟨timestampFilterFuncs, filterFuncs⟩, hfilters, h⟩ := Go.bind_eq_ok.mp h
  obtain ⟨aggregates, hscan, h⟩ := Go.bind_eq_ok.mp h
  obtain ⟨aggregate, hscan', hcount⟩ := @count_scan_of_grouping_none s
    ⟨timestampFilterFuncs, filterFuncs, sums.map (·.1), sums.map (·.2), none⟩ st rfl hwhole
  rw [hscan', Go.ok.injEq] at hscan
  subst hscan
  obtain ⟨row, hpost, hrow⟩ := @postProcessScanRows_rowCount s st aggregate query
  rw [hpost, Go.ok.injEq] at h
  exact ⟨timestampFilterFuncs, filterFuncs, row, hfilters, h.symm, hcount ▸ hrow⟩

/-- A schema with a `uint8` metric `clicks` and no dimension. -/
def clicksSchema : Schema :=
  ⟨Column.make "at" .uint32, [], [Column.make "clicks" .uint8], 1000, 3600 * 1000000000, false, "",
    ⟨false, 0⟩⟩

/-- `sum(clicks) as clicks`. -/
def sumClicks : QueryAggregate := ⟨.sum, "clicks", "clicks"⟩

/-- A table of `clicksSchema` with one interval and one row: count 1, `clicks = 1`. -/
def oneClickTable : StaticTable :=
  ⟨[(0, ⟨0, 0, 3600 * 1000000000, [⟨encodeLE 4 1 ++ [0, 1]⟩], 1, 1⟩)], []⟩

/-- A table of `clicksSchema` with one interval of three rows: counts 1, 2 and 3, with
`clicks` 1, 5 and 9. -/
def threeClicksTable : StaticTable :=
  ⟨[(0, ⟨0, 0, 3600 * 1000000000,
    [⟨encodeLE 4 1 ++ [0, 1] ++ encodeLE 4 2 ++ [0, 5] ++ encodeLE 4 3 ++ [0, 9]⟩], 1, 3⟩)], []⟩

/-- `clicks > 4`, which drops the first row of `threeClicksTable`. -/
def clicksAbove4 : QueryFilter := ⟨.greaterThan, "clicks", .num (F64.ofNat 4)⟩

theorem invokeQuery_rowCount_filtered :
    ([] : List QueryGrouping) = [] ∧
      (∀ iv ∈ threeClicksTable.intervals, WholeRows clicksSchema iv.2) ∧
      invokeQuery (fun _ => "") clicksSchema threeClicksTable ⟨[sumClicks], [], [clicksAbove4]⟩ =
        .ok [(RowMap.empty.set "clicks" (.uint64 14)).set "rowCount" (.uint32 5)] ∧
      ∃ timestampFilterFuncs filterFuncs row,
        compileFilters (fun _ => "") clicksSchema threeClicksTable [clicksAbove4] =
          .ok (timestampFilterFuncs, filterFuncs) ∧
        [(RowMap.empty.set "clicks" (.uint64 14)).set "rowCount" (.uint32 5)] = [row] ∧
        row.get? "rowCount" = some (.uint32 (UInt32.ofNat
          (countSum (selectedRows clicksSchema threeClicksTable timestampFilterFuncs
            filterFuncs)))) := by
  have hwhole : ∀ iv ∈ threeClicksTable.intervals, WholeRows clicksSchema iv.2 := by decide
  have hrun : invokeQuery (fun _ => "") clicksSchema threeClicksTable
      ⟨[sumClicks], [], [clicksAbove4]⟩ =
      .ok [(RowMap.empty.set "clicks" (.uint64 14)).set "rowCount" (.uint32 5)] := rfl
  exact ⟨rfl, hwhole, hrun, @invokeQuery_rowCount (fun _ => "") clicksSchema threeClicksTable
    ⟨[sumClicks], [], [clicksAbove4]⟩ _ rfl hwhole hrun⟩

/-- A table of `clicksSchema` with one interval of two rows, each of count `2 ^ 31`. -/
def bigCountTable : StaticTable :=
  ⟨[(0, ⟨0, 0, 3600 * 1000000000,
    [⟨encodeLE 4 (2 ^ 31) ++ [0, 1] ++ encodeLE 4 (2 ^ 31) ++ [0, 1]⟩], 1, 2⟩)], []⟩

/-- The stored counts of `bigCountTable` add up to `2 ^ 32`, while the sum of the metric is exact;
the query's `rowCount` is `0`. -/
theorem rowCount_wraps_at_two_pow_32 :
    ((bigCountTable.intervals.flatMap fun iv => iv.2.rows clicksSchema).map (·.2.count)).sum =
        2 ^ 32 ∧
      invokeQuery (fun _ => "") clicksSchema bigCountTable ⟨[sumClicks], [], []⟩ =
        .ok [(RowMap.empty.set "clicks" (.uint64 2)).set "rowCount" (.uint32 0)] :=
  ⟨rfl, rfl⟩

/-- Grouped on the timestamp column, an interval none of whose rows passes the filters still
gives a group, of count 0: the compiled `clicks > 5` selects no row of `oneClickTable`, and the
query answers one row. -/
theorem timestamp_grouping_reports_unselected_interval :
    (∃ timestampFilterFuncs filterFuncs,
      compileFilters (fun _ => "") clicksSchema oneClickTable
          [⟨.greaterThan, "clicks", .num (F64.ofNat 5)⟩] = .ok (timestampFilterFuncs, filterFuncs) ∧
        selectedRows clicksSchema oneClickTable timestampFilterFuncs filterFuncs = []) ∧
      invokeQuery (fun _ => "") clicksSchema oneClickTable
          ⟨[sumClicks], [⟨.none, "at", "at"⟩], [⟨.greaterThan, "clicks", .num (F64.ofNat 5)⟩]⟩ =
        .ok [((RowMap.empty.set "clicks" (.uint64 0)).set "at" (.uint32 0)).set "rowCount"
          (.uint32 0)] :=
  ⟨⟨_, _, rfl, rfl⟩, rfl⟩

/-- A schema with an `int8` dimension `delta` and a `uint8` metric `clicks`. -/
def deltaSchema : Schema :=
  ⟨Column.make "at" .uint32, [{ Column.make "delta" .int8 with string := false }],
    [Column.make "clicks" .uint8], 1000, 3600 * 1000000000, false, "", ⟨false, 0⟩⟩

/-- An interval of `deltaSchema` with one row: count 1, `delta = -1`, `clicks = 1`. -/
def deltaInterval : Interval := ⟨0, 0, 3600 * 1000000000, [⟨encodeLE 4 1 ++ [0, 0xFF, 1]⟩], 1, 1⟩

/-- `deltaInterval` alone. -/
def deltaTable : StaticTable := ⟨[(0, deltaInterval)], [none]⟩

/-- Grouped on a one-byte dimension, the query takes the slice strategy; the row's `delta = -1`
indexes the slice at `-1` and the query panics, where the map strategy puts the row in the group
`-1`. -/
theorem slice_grouping_panics_on_negative_int8 :
    useSliceGrouping deltaSchema deltaTable ⟨false, 0, none⟩ = .ok true ∧
      invokeQuery (fun _ => "") deltaSchema deltaTable
          ⟨[sumClicks], [⟨.none, "delta", "delta"⟩], []⟩ =
        .panic "runtime error: index out of range [-1]" ∧
      scanMapGrouping deltaSchema ⟨[], [], [], [], some ⟨false, 0, none⟩⟩ ⟨false, 0, none⟩ 0
          deltaInterval = .ok [(.int8 (-1), ⟨[], 1⟩)] :=
  ⟨rfl, rfl, rfl⟩


end Gumshoe
