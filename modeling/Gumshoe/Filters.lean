import Gumshoe.ParseQuery
import Gumshoe.DB

/-!
# Compiled filters

`query.go` (`makeTimestampFilterFunc`, `makeDimensionFilterFunc`, `makeMetricFilterFunc` and
their `In` forms) and the filter templates of `gen.go`. A query filter becomes a predicate on the
start second of an interval (`uint32`) for the timestamp column, or on the bytes of a row for a
dimension or metric column. The generated makers, one closure per column type and operator, are
here one definition each over `ColType` and `FilterType`: the filter value converted to the column
type by Go's conversion `T(value)`, the cell read as that type, and the comparison of two values of
one type (`Untyped.order?`): integers as integers, floats in IEEE order.

Two shortcuts stand in for a predicate: `falseFilterFunc`, for a string that the dimension table
does not hold and for an empty `in` list, and the nil filters, for a `null` value, which follow
the truth table of `makeDimensionFilterFunc`.

`fmtG` is `%v` of a `float64`, which only error texts use.
-/

namespace Gumshoe

open Bytes Json

/-! ## Values -/

/-- Go's order of two values of one numeric type: integers as integers, floats in IEEE order
(none when one is NaN). Values of two different types are never compared by the generated code;
they get none. -/
def Untyped.order? : Untyped → Untyped → Option Ordering
  | .float32 a, .float32 b => (IEEE.decode IEEE.binary32 a.toNat).order
      (IEEE.decode IEEE.binary32 b.toNat)
  | .float64 a, .float64 b => a.value.order b.value
  | a, b => do
    let x ← a.toInt?
    let y ← b.toInt?
    pure (compare x y)

/-- Go's `a == b` on two values of one numeric type. -/
def Untyped.goEq (a b : Untyped) : Bool := a.order? b == some .eq

/-- `T(value)` of a JSON number for the column type `T`. -/
def convertValue (typ : ColType) (value : F64) : Untyped := ofCellBits typ (convertFloat typ value)

/-- `T(index)` of a dictionary index for the column type `T`: string columns have unsigned integer
types (`makeSchema` checks), and the conversion keeps the low bits. -/
def convertIndex (typ : ColType) (index : UInt32) : Untyped :=
  ofCellBits typ (index.toNat % 2 ^ (8 * typeWidths typ))

/-- `uint32(value)`. -/
def toUInt32 (value : F64) : UInt32 := UInt32.ofNat (convertFloat .uint32 value)

mutual

/-- `%v` of a value decoded from JSON. -/
def formatValue (fmtG : F64 → String) : Json F64 → String
  | .null => "<nil>"
  | .bool b => toString b
  | .num x => fmtG x
  | .str s => s
  | .arr vs => "[" ++ formatValues fmtG vs ++ "]"
  | .obj kvs => "map[" ++ formatMembers fmtG kvs ++ "]"

def formatValues (fmtG : F64 → String) : List (Json F64) → String
  | [] => ""
  | [v] => formatValue fmtG v
  | v :: vs => formatValue fmtG v ++ " " ++ formatValues fmtG vs

def formatMembers (fmtG : F64 → String) : List (String × Json F64) → String
  | [] => ""
  | [(k, v)] => k ++ ":" ++ formatValue fmtG v
  | (k, v) :: kvs => k ++ ":" ++ formatValue fmtG v ++ " " ++ formatMembers fmtG kvs

end

/-! ## The generated makers -/

/-- `filterFunc`: a predicate on the bytes of a row. -/
abbrev FilterFunc := List UInt8 → Bool

/-- `timestampFilterFunc`: a predicate on the start second of an interval. -/
abbrev TimestampFilterFunc := UInt32 → Bool

/-- `falseFilterFunc`. -/
def falseFilterFunc : FilterFunc := fun _ => false

/-- The Go operator of a simple filter type, on the order of its two operands: with NaN (no
order) only `!=` holds. The generated makers range over the simple filter types; given `FilterIn`
they panic. -/
def FilterType.goOperator : FilterType → Go (Option Ordering → Bool)
  | .equal => .ok (· == some .eq)
  | .notEqual => .ok (· != some .eq)
  | .greaterThan => .ok (· == some .gt)
  | .greaterThenOrEqual => .ok fun o => o == some .gt || o == some .eq
  | .lessThan => .ok (· == some .lt)
  | .lessThanOrEqual => .ok fun o => o == some .lt || o == some .eq
  | .«in» => .panic "unreached"

/-- `row[nilOffset] & mask > 0`. -/
def rowNil (row : List UInt8) (nilOffset : Nat) (mask : UInt8) : Bool :=
  decide ((row.getD nilOffset 0 &&& mask) > 0)

/-- `makeTimestampFilterFuncSimpleGen(filter)(timestamp)`: `t OP timestamp`. -/
def makeTimestampFilterFuncSimpleGen (filter : FilterType) (timestamp : UInt32) :
    Go TimestampFilterFunc := do
  let op ← filter.goOperator
  pure fun t => op (some (compare t.toNat timestamp.toNat))

/-- `makeNilFilterFuncSimpleGen(typ, filter)(nilOffset, mask)`: a nil row passes `=`, any other
row passes `!=`. -/
def makeNilFilterFuncSimpleGen (filter : FilterType) (nilOffset : Nat) (mask : UInt8) :
    Go FilterFunc := do
  let _ ← filter.goOperator
  pure fun row => if rowNil row nilOffset mask then filter == .equal else filter == .notEqual

/-- `makeDimensionFilterFuncSimpleGen(typ, filter, isString)(value, nilOffset, mask,
valueOffset)`: the value is a dictionary index for a string column and a JSON number otherwise;
a nil row passes `!=` only. -/
def makeDimensionFilterFuncSimpleGen (typ : ColType) (filter : FilterType) (value : UInt32 ⊕ F64)
    (nilOffset : Nat) (mask : UInt8) (valueOffset : Nat) : Go FilterFunc := do
  let op ← filter.goOperator
  let v := match value with
    | .inl index => convertIndex typ index
    | .inr float => convertValue typ float
  pure fun row =>
    if rowNil row nilOffset mask then filter == .notEqual
    else op ((numericCellValue row valueOffset typ).order? v)

/-- `makeDimensionFilterFuncInGen(typ, isString)(values, acceptNil, nilOffset, mask,
valueOffset)`: a nil row passes when `null` was listed, another when its value equals one of the
values. -/
def makeDimensionFilterFuncInGen (typ : ColType) (values : List (UInt32 ⊕ F64)) (acceptNil : Bool)
    (nilOffset : Nat) (mask : UInt8) (valueOffset : Nat) : FilterFunc :=
  let typedValues := values.map fun
    | .inl index => convertIndex typ index
    | .inr float => convertValue typ float
  fun row =>
    if rowNil row nilOffset mask then acceptNil
    else typedValues.any fun v => (numericCellValue row valueOffset typ).goEq v

/-- `makeMetricFilterFuncSimpleGen(typ, filter)(value, offset)`. -/
def makeMetricFilterFuncSimpleGen (typ : ColType) (filter : FilterType) (value : F64)
    (offset : Nat) : Go FilterFunc := do
  let op ← filter.goOperator
  let v := convertValue typ value
  pure fun row => op ((numericCellValue row offset typ).order? v)

/-- `makeMetricFilterFuncInGen(typ)(floats, offset)`. -/
def makeMetricFilterFuncInGen (typ : ColType) (floats : List F64) (offset : Nat) : FilterFunc :=
  let typedValues := floats.map (convertValue typ)
  fun row => typedValues.any fun v => (numericCellValue row offset typ).goEq v

/-! ## The makers of `query.go` -/

section Makers

variable (fmtG : F64 → String) (s : Schema) (st : StaticTable)

/-- `s.DimensionColumns[index]`. -/
def Schema.dimensionColumn (index : Nat) : Go DimensionColumn :=
  match s.dimensionColumns[index]? with
  | some col => .ok col
  | none => .panic (indexOutOfRange index s.dimensionColumns.length)

/-- `s.MetricColumns[index]`. -/
def Schema.metricColumn (index : Nat) : Go MetricColumn :=
  match s.metricColumns[index]? with
  | some col => .ok col
  | none => .panic (indexOutOfRange index s.metricColumns.length)

/-- `s.DimensionTables[index]`, dereferenced: a column without a table has a nil pointer. -/
def StaticTable.dimensionTable (index : Nat) : Go DimensionTable :=
  match st.dimensionTables[index]? with
  | some (some table) => .ok table
  | some none => .panic nilDereference
  | none => .panic (indexOutOfRange index st.dimensionTables.length)

/-- The start second of an interval as the timestamp filters see it, `uint32(t.Unix())`. -/
def intervalSecond (start : ℤ) : UInt32 := UInt32.ofNat (GoTime.toUnix start % 2 ^ 32).toNat

/-- `makeTimestampFilterFuncIn`. -/
def makeTimestampFilterFuncIn (filter : QueryFilter) : Go TimestampFilterFunc :=
  match filter.value with
  | .arr values => do
    let timestamps ← values.mapM fun
      | .num float => .ok (toUInt32 float)
      | v => .error ("timestamp column \x27in\x27 filter list must include numeric values; got " ++
          formatValue fmtG v)
    pure fun timestamp => timestamps.contains timestamp
  | v => .error ("timestamp column \x27in\x27 filter must be given an array; got " ++
      formatValue fmtG v)

/-- `makeTimestampFilterFunc`. -/
def makeTimestampFilterFunc (filter : QueryFilter) : Go TimestampFilterFunc :=
  if filter.type = .«in» then makeTimestampFilterFuncIn fmtG filter
  else match filter.value with
    | .num value => makeTimestampFilterFuncSimpleGen filter.type (toUInt32 value)
    | v => .error ("timestamp column filters must be numeric; got " ++ formatValue fmtG v)

/-- The loop of `makeDimensionFilterFuncIn` over the values for a string column: the indices of
the strings the dictionary holds, and whether `null` was listed. -/
def dimensionInStrings (col : DimensionColumn) (table : DimensionTable) :
    List (Json F64) → Go (List UInt32 × Bool)
  | [] => .ok ([], false)
  | .null :: vs => do
    let (indices, _) ← dimensionInStrings col table vs
    pure (indices, true)
  | .str value :: vs => do
    let (indices, acceptNil) ← dimensionInStrings col table vs
    pure ((table.get value).toList ++ indices, acceptNil)
  | v :: _ => .error ("\x27in\x27 queries on dimension " ++ goQuote col.name ++
      " take string or null values; got " ++ formatValue fmtG v)

/-- The loop of `makeDimensionFilterFuncIn` over the values for a numeric column. -/
def dimensionInFloats (col : DimensionColumn) : List (Json F64) → Go (List F64 × Bool)
  | [] => .ok ([], false)
  | .null :: vs => do
    let (floats, _) ← dimensionInFloats col vs
    pure (floats, true)
  | .num float :: vs => do
    let (floats, acceptNil) ← dimensionInFloats col vs
    pure (float :: floats, acceptNil)
  | v :: _ => .error ("\x27in\x27 queries on dimension " ++ goQuote col.name ++
      " take numeric or null values; got " ++ formatValue fmtG v)

/-- `makeDimensionFilterFuncIn`. -/
def makeDimensionFilterFuncIn (filter : QueryFilter) (index : Nat) : Go FilterFunc :=
  match filter.value with
  | .arr [] => .ok falseFilterFunc
  | .arr valueSlice => do
    let col ← s.dimensionColumn index
    let mask : UInt8 := 1 <<< (index % 8).toUInt8
    let nilOffset := s.layout.dimensionStartOffset + index / 8
    -- the column exists, so its offset does
    let valueOffset := s.layout.dimensionStartOffset + s.layout.dimensionOffsets.getD index 0
    if col.string then
      let table ← st.dimensionTable index
      let (dimIndices, acceptNil) ← dimensionInStrings fmtG col table valueSlice
      if dimIndices = [] ∧ !acceptNil then .ok falseFilterFunc
      else .ok (makeDimensionFilterFuncInGen col.type (dimIndices.map .inl) acceptNil nilOffset mask
        valueOffset)
    else
      let (floats, acceptNil) ← dimensionInFloats fmtG col valueSlice
      .ok (makeDimensionFilterFuncInGen col.type (floats.map .inr) acceptNil nilOffset mask
        valueOffset)
  | v => .error ("\x27in\x27 queries require a list for comparison; got " ++ formatValue fmtG v)

/-- `makeDimensionFilterFunc`. -/
def makeDimensionFilterFunc (filter : QueryFilter) (index : Nat) : Go FilterFunc :=
  if filter.type = .«in» then makeDimensionFilterFuncIn fmtG s st filter index
  else do
    let col ← s.dimensionColumn index
    let mask : UInt8 := 1 <<< (index % 8).toUInt8
    let nilOffset := s.layout.dimensionStartOffset + index / 8
    let valueOffset := s.layout.dimensionStartOffset + s.layout.dimensionOffsets.getD index 0
    match filter.value with
    | .null => makeNilFilterFuncSimpleGen filter.type nilOffset mask
    | value =>
      if col.string then
        match value with
        | .str string => do
          let table ← st.dimensionTable index
          match table.get string with
          -- a string the dictionary does not hold: no row passes, whatever the operator
          | none => .ok falseFilterFunc
          | some dimIndex =>
            makeDimensionFilterFuncSimpleGen col.type filter.type (.inl dimIndex) nilOffset mask
              valueOffset
        | v => .error ("need a string value to filter column " ++ goQuote col.name ++ "; got " ++
            formatValue fmtG v)
      else
        match value with
        | .num float =>
          makeDimensionFilterFuncSimpleGen col.type filter.type (.inr float) nilOffset mask
            valueOffset
        | v => .error ("need a numeric value to filter column " ++ goQuote col.name ++ "; got " ++
            formatValue fmtG v)

/-- `makeMetricFilterFuncIn`. -/
def makeMetricFilterFuncIn (filter : QueryFilter) (index : Nat) : Go FilterFunc :=
  match filter.value with
  | .arr [] => .ok falseFilterFunc
  | .arr values => do
    let floats ← values.mapM fun
      | .num float => .ok float
      | v => .error ("\x27in\x27 queries on metric columns take numeric values only; got " ++
          formatValue fmtG v)
    let col ← s.metricColumn index
    let offset := s.layout.metricStartOffset + s.layout.metricOffsets.getD index 0
    .ok (makeMetricFilterFuncInGen col.type floats offset)
  | v => .error ("\x27in\x27 queries require a list for comparison; got " ++ formatValue fmtG v)

/-- `makeMetricFilterFunc`. -/
def makeMetricFilterFunc (filter : QueryFilter) (index : Nat) : Go FilterFunc :=
  if filter.type = .«in» then makeMetricFilterFuncIn fmtG s filter index
  else match filter.value with
    | .num float => do
      let col ← s.metricColumn index
      let offset := s.layout.metricStartOffset + s.layout.metricOffsets.getD index 0
      makeMetricFilterFuncSimpleGen col.type filter.type float offset
    | v => .error ("need a numeric value for metric filter comparisons; got " ++
        formatValue fmtG v)

end Makers

/-- A schema with a string dimension `name` and a `uint8` metric `clicks`. -/
def nameSchema : Schema :=
  ⟨Column.make "at" .uint32, [{ Column.make "name" .uint8 with string := true }],
    [Column.make "clicks" .uint8], 1000, 3600 * 1000000000, false, "", ⟨false, 0⟩⟩

/-- A stored row of `nameSchema`: count 1, `name` the dictionary's index 0, `clicks = 2`. -/
def storedNameRow : List UInt8 := encodeLE 4 1 ++ [0, 0, 2]

/-- A table of `nameSchema` whose dictionary holds `"a"` and whose one interval holds
`storedNameRow`. -/
def nameTable : StaticTable :=
  ⟨[(0, ⟨0, 0, 3600 * 1000000000, [⟨storedNameRow⟩], 1, 1⟩)], [some (newDimensionTable 0 ["a"])]⟩

/-- The row reads back as `name = "a"`, `clicks = 2`; yet the compiled `name != "b"` rejects it,
since `"b"` is not in the dictionary, and the compiled `clicks = 2.5` (`0x4004000000000000`)
accepts it, since `uint8(2.5)` is `2`. -/
theorem filters_diverge_from_comparison :
    deserializeRow nameSchema nameTable.dimensionTables storedNameRow =
        .ok ⟨(RowMap.empty.set "name" (.string "a")).set "clicks" (.uint8 2), 1⟩ ∧
      (∃ filter, makeDimensionFilterFunc (fun _ => "") nameSchema nameTable
          ⟨.notEqual, "name", .str "b"⟩ 0 = .ok filter ∧ filter storedNameRow = false) ∧
      (∃ filter, makeMetricFilterFunc (fun _ => "") nameSchema
          ⟨.equal, "clicks", .num ⟨0x4004000000000000⟩⟩ 0 = .ok filter ∧
        filter storedNameRow = true) :=
  ⟨rfl, ⟨_, rfl, rfl⟩, ⟨_, rfl, rfl⟩⟩

end Gumshoe
