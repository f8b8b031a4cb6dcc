import Gumshoe.DimensionTable
import Gumshoe.Lib.GoTime

/-!
# Rows

`row.go`: packing a JSON row (`RowMap`) into dimension and metric bytes (`serializeRowMap`, with
`setDimensionValue` and `setMetricValue` per column), and unpacking a stored row
(`DeserializeRow`).

A string dimension is stored as its dictionary index: the static table's index when the static
dictionary has the string, otherwise the memtable dictionary's index (the string is added there
if new) offset by the static dictionary's length, in `uint32` arithmetic. The memtable
dictionaries are changed in place, so `serializeRowMap` returns them with its result, also when
a later column makes it fail.

The checks compare a value with `typeMaxes` only from above: a negative number in an unsigned
column, or one below the minimum of a signed column, is stored wrapped
(`serializeRowMap_negative_metric`).
-/

namespace Gumshoe

open Bytes

/-- `RowMap`: a Go map from column names to values, as its entries with distinct keys. -/
structure RowMap where
  entries : List (String × Untyped)
  nodup : (entries.map (·.1)).Nodup
deriving DecidableEq

namespace RowMap

/-- `m[k]`, with `ok`. -/
def get? (m : RowMap) (k : String) : Option Untyped := m.entries.lookup k

/-- `len(m)`. -/
def size (m : RowMap) : Nat := m.entries.length

def empty : RowMap := ⟨[], List.nodup_nil⟩

/-- `m[k] = v`. -/
def set (m : RowMap) (k : String) (v : Untyped) : RowMap :=
  ⟨(k, v) :: m.entries.filter (·.1 ≠ k), by
    rw [List.map_cons, List.nodup_cons]
    refine ⟨by simp, ?_⟩
    exact m.nodup.sublist (List.filter_sublist.map _)⟩

@[simp] theorem get?_set_self (m : RowMap) (k : String) (v : Untyped) :
    (m.set k v).get? k = some v := by
  simp [get?, set]

end RowMap

/-- `UnpackedRow`: a row with the number of logical rows collapsed into it. Callers of
`InsertUnpacked` pass `1` or a count read back from a stored row, so it is a natural number. -/
structure UnpackedRow where
  rowMap : RowMap
  count : Nat
deriving DecidableEq

/-- `insertionRow`. -/
structure InsertionRow where
  timestamp : ℤ
  dimensions : List UInt8
  metrics : List UInt8
deriving DecidableEq, Repr

/-- `DimensionBytes.setNil(index)`: `d[index>>3] |= 1 << (index&7)`. -/
def setNil (d : List UInt8) (index : Nat) : List UInt8 := setBit d index

/-- `DimensionBytes.IsNil(index)`. -/
def isNil (d : List UInt8) (index : Nat) : Bool := testBit d index

/-- Go's `%q` of a column name: the name in double quotes, with quotes and backslashes escaped
(the names the program uses have no other characters `%q` escapes). -/
def goQuote (s : String) : String :=
  s.foldl (fun acc c => if c = '"' then acc ++ "\\\"" else if c = '\\' then acc ++ "\\\\"
    else acc.push c) "\"" ++ "\""

/-- The panic of indexing a slice of length `n` at `i`; for a negative index Go leaves the length
out. -/
def indexOutOfRange (i : ℤ) (n : Nat) : String :=
  if i < 0 then "runtime error: index out of range [" ++ toString i ++ "]"
  else "runtime error: index out of range [" ++ toString i ++ "] with length " ++ toString n

/-- The panic of dereferencing a nil pointer. -/
def nilDereference : String := "runtime error: invalid memory address or nil pointer dereference"

section Serialize

-- `fmtG` is Go's `%v` of a `float64` (strconv's shortest formatting), which only error texts
-- use; it is not modelled
variable (fmtG : F64 → String)

variable (s : Schema) (static : List (Option DimensionTable))

/-- `DB.setDimensionValue(dimensions, index, value)`, where `column` is
`db.DimensionColumns[index]` and `static` the `StaticTable`'s dictionaries; gives the memtable's
dictionaries back, changed when a new string was added. -/
def setDimensionValue (mem : List (Option DimensionTable)) (dimensions : List UInt8) (index : Nat)
    (column : DimensionColumn) (value : Untyped) : Go (List UInt8) × List (Option DimensionTable) :=
  let offset := s.layout.dimensionOffsets.getD index 0
  match value with
  | .nil => (.ok (setNil dimensions index), mem)
  | value =>
    if column.string then
      match value with
      | .string stringValue =>
        match static.getD index none with
        | none => (.panic nilDereference, mem)
        | some staticTable =>
          -- the static index, or the memtable's offset by the static dictionary's length
          let lookup : Go UInt32 × List (Option DimensionTable) :=
            match staticTable.get stringValue with
            | some i => (.ok i, mem)
            | none =>
              match mem.getD index none with
              | none => (.panic nilDereference, mem)
              | some memTable =>
                let ((i, _), memTable') := memTable.getAndMaybeSet stringValue
                (.ok (i + UInt32.ofNat staticTable.values.length), mem.set index (some memTable'))
          match lookup with
          | (.ok dimValueIndex, mem') =>
            if (F64.ofNat dimValueIndex.toNat).value.gtInt (typeMaxes column.type) then
              (.error ("adding a new value (" ++ stringValue ++ ") to dimension " ++ column.name ++
                " overflows the dimension table"), mem')
            else
              (.ok (setRowValue dimensions offset column.type (F64.ofNat dimValueIndex.toNat)), mem')
          | (.error e, mem') => (.error e, mem')
          | (.panic p, mem') => (.panic p, mem')
      | _ => (.error ("expected string value for dimension " ++ column.name), mem)
    else
      match value with
      | .float64 float =>
        if float.value.gtInt (typeMaxes column.type) then
          (.error ("value " ++ fmtG float ++ " too large for dimension " ++ column.name ++
            " (type " ++ typeNames column.type ++ ")"), mem)
        else (.ok (setRowValue dimensions offset column.type float), mem)
      | _ => (.error ("expected numeric value for dimension " ++ column.name), mem)

/-- `DB.setMetricValue(metrics, index, value)`, where `column` is `db.MetricColumns[index]`. -/
def setMetricValue (metrics : List UInt8) (index : Nat) (column : MetricColumn) (value : Untyped) :
    Go (List UInt8) :=
  let offset := s.layout.metricOffsets.getD index 0
  match value with
  | .nil => .ok (setRowValue metrics offset column.type ⟨0⟩)
  | .float64 float =>
    if float.value.gtInt (typeMaxes column.type) then
      .error ("value " ++ fmtG float ++ " too large for column " ++ column.name ++ " (type " ++
        typeNames column.type ++ ")")
    else .ok (setRowValue metrics offset column.type float)
  | _ => .error ("expected numeric value for metric " ++ column.name)

variable (rowMap : RowMap)

/-- The dimension loop of `serializeRowMap` from column `i` on: a missing value is nil and
counted; the first failure stops the loop, keeping the dictionary changes made so far. -/
def serializeDimensions : Nat → List DimensionColumn → List (Option DimensionTable) → List UInt8 →
    Nat → Go (List UInt8 × Nat) × List (Option DimensionTable)
  | _, [], mem, dimensions, missing => (.ok (dimensions, missing), mem)
  | i, col :: cols, mem, dimensions, missing =>
    let (value, missing) :=
      match rowMap.get? col.name with
      | some v => (v, missing)
      | none => (Untyped.nil, missing + 1)
    match setDimensionValue fmtG s static mem dimensions i col value with
    | (.ok dimensions', mem') => serializeDimensions (i + 1) cols mem' dimensions' missing
    | (.error e, mem') => (.error e, mem')
    | (.panic p, mem') => (.panic p, mem')

/-- The metric loop of `serializeRowMap` from column `i` on: a missing value is `0.0` and
counted. -/
def serializeMetrics : Nat → List MetricColumn → List UInt8 → Nat → Go (List UInt8 × Nat)
  | _, [], metrics, missing => .ok (metrics, missing)
  | i, col :: cols, metrics, missing =>
    let (value, missing) :=
      match rowMap.get? col.name with
      | some v => (v, missing)
      | none => (Untyped.float64 ⟨0⟩, missing + 1)
    match setMetricValue fmtG s metrics i col value with
    | .ok metrics' => serializeMetrics (i + 1) cols metrics' missing
    | .error e => .error e
    | .panic p => .panic p

/-- `DB.serializeRowMap(rowMap)`, with the memtable's dictionaries `mem` before and after. -/
def serializeRowMap (mem : List (Option DimensionTable)) :
    Go InsertionRow × List (Option DimensionTable) :=
  let timestampColumnName := s.timestampColumn.name
  match rowMap.get? timestampColumnName with
  | none =>
    (.error ("row must have a value for the timestamp column (" ++ goQuote timestampColumnName ++
      ")"), mem)
  | some (.float64 timestampUnix) =>
    match serializeDimensions fmtG s static rowMap 0 s.dimensionColumns mem
        (List.replicate s.layout.dimensionWidth 0) 0 with
    | (.ok (dimensions, missing), mem') =>
      match serializeMetrics fmtG s rowMap 0 s.metricColumns
          (List.replicate s.layout.metricWidth 0) missing with
      | .ok (metrics, missing) =>
        -- sanity check that there are no extra fields
        let expectedFields := 1 + s.dimensionColumns.length + s.metricColumns.length - missing
        if rowMap.size > expectedFields then
          (.error "extra (unrecognized) columns in insertion row", mem')
        else
          (.ok ⟨GoTime.unix (wrapInt .int64 (timestampUnix.value.truncInt.getD 0)), dimensions,
            metrics⟩, mem')
      | .error e => (.error e, mem')
      | .panic p => (.panic p, mem')
    | (.error e, mem') => (.error e, mem')
    | (.panic p, mem') => (.panic p, mem')
  | some _ =>
    (.error ("timestamp column (" ++ goQuote timestampColumnName ++ ") must have a numeric value"),
      mem)

end Serialize

/-! ## `DeserializeRow` -/

/-- `UntypedToInt(u)`: reflect's conversion of a numeric value to `int`. -/
def untypedToInt : Untyped → Go ℤ
  | .float64 f => .ok (wrapInt .int64 (f.value.truncInt.getD 0))
  | .float32 b => .ok (wrapInt .int64 ((IEEE.decode IEEE.binary32 b.toNat).truncInt.getD 0))
  | .nil => .panic "reflect: call of reflect.Value.Convert on zero Value"
  | u =>
    match u.toInt? with
    | some n => .ok (wrapInt .int64 n)
    | none => .panic "reflect.Value.Convert: value cannot be converted to type int"

section Deserialize

variable (s : Schema) (static : List (Option DimensionTable))

/-- The value `DeserializeRow` reads for dimension column `i` from the dimension bytes. -/
def dimensionValue (dimensions : List UInt8) (i : Nat) (col : DimensionColumn) : Go Untyped :=
  if isNil dimensions i then .ok .nil
  else
    let value := numericCellValue dimensions (s.layout.dimensionOffsets.getD i 0) col.type
    if col.string then do
      let dimensionIndex ← untypedToInt value
      match static.getD i none with
      | none => .panic nilDereference
      | some table =>
        if h : 0 ≤ dimensionIndex ∧ dimensionIndex.toNat < table.values.length then
          .ok (.string (table.values.get ⟨dimensionIndex.toNat, h.2⟩))
        else .panic (indexOutOfRange dimensionIndex table.values.length)
    else .ok value

/-- The dimension loop of `DeserializeRow` from column `i` on. -/
def deserializeDimensions (dimensions : List UInt8) : Nat → List DimensionColumn → RowMap → Go RowMap
  | _, [], rowMap => .ok rowMap
  | i, col :: cols, rowMap => do
    let value ← dimensionValue s static dimensions i col
    deserializeDimensions dimensions (i + 1) cols (rowMap.set col.name value)

/-- The metric loop of `DeserializeRow` from column `i` on. -/
def deserializeMetrics (metrics : List UInt8) : Nat → List MetricColumn → RowMap → RowMap
  | _, [], rowMap => rowMap
  | i, col :: cols, rowMap =>
    deserializeMetrics metrics (i + 1) cols
      (rowMap.set col.name (numericCellValue metrics (s.layout.metricOffsets.getD i 0) col.type))

/-- `DB.DeserializeRow(row)`, with `static` the `StaticTable`'s dictionaries. -/
def deserializeRow (row : List UInt8) : Go UnpackedRow := do
  let count := decodeLE (row.take countColumnWidth)
  let dimensions := readAt row s.layout.dimensionStartOffset s.layout.dimensionWidth
  let metrics := row.drop s.layout.metricStartOffset
  let rowMap ← deserializeDimensions s static dimensions 0 s.dimensionColumns RowMap.empty
  pure ⟨deserializeMetrics s metrics 0 s.metricColumns rowMap, count⟩

end Deserialize

/-- A schema with a `uint8` dimension and a `uint8` metric. -/
def uint8Schema : Schema :=
  ⟨Column.make "at" .uint32, [{ Column.make "code" .uint8 with string := false }],
    [Column.make "clicks" .uint8], 1000, 3600 * 1000000000, false, "", ⟨false, 0⟩⟩

/-- The JSON row `{"at": -1, "code": -1, "clicks": -1}`; `0xBFF0000000000000` is `-1.0`. -/
def negativeRow : RowMap :=
  ⟨[("at", .float64 ⟨0xBFF0000000000000⟩), ("code", .float64 ⟨0xBFF0000000000000⟩),
    ("clicks", .float64 ⟨0xBFF0000000000000⟩)], by decide⟩

/-- `serializeRowMap` accepts `-1` in `uint8` columns and as a timestamp; the row reads back
with `255` in both columns, and its interval start, as queries see it, is `2 ^ 32 - 3600`. -/
theorem serializeRowMap_accepts_negative (fmtG : F64 → String) :
    serializeRowMap fmtG uint8Schema [none] negativeRow [none] =
        (.ok ⟨-1000000000, [0, 255], [255]⟩, [none]) ∧
      deserializeRow uint8Schema [none] (encodeLE 4 1 ++ [0, 255] ++ [255]) =
        .ok ⟨⟨[("clicks", .uint8 255), ("code", .uint8 255)], by decide⟩, 1⟩ ∧
      wrapInt .uint32
          (GoTime.toUnix (GoTime.truncate (-1000000000) uint8Schema.intervalDuration)) =
        4294963696 := by
  refine ⟨rfl, by decide, by decide⟩

end Gumshoe
