import Gumshoe.Interval

/-!
# The database and its inserter

`db.go`, `static_table.go` and `insert.go`. A `DB` holds the `StaticTable` (the frozen intervals
and the dictionaries queries read), the `MemTable` (rows inserted since the last flush) and the
latest timestamp seen. Go's maps from interval start times are kept as `SortedMap`s over the
start's nanoseconds, which is also the order in which `flush` sorts their keys.

`insertRows` serializes each row against the static dictionaries and the memtable's, and
collapses it into the memtable interval of its truncated timestamp; with `FixedRetention` set, a
row whose interval is out of retention is dropped. The first row `serializeRowMap` rejects
stops the batch with its error; the rows before it stay inserted, and the strings it added to the
memtable dictionaries stay there.

A batch reads the clock once (`now`): Go reads it per row, in `time.Since`.
-/

namespace Gumshoe

/-- `StaticTable`: the intervals by start time, and a dictionary for each string column. -/
structure StaticTable where
  intervals : List (ℤ × Interval)
  dimensionTables : List (Option DimensionTable)

/-- `NewStaticTable`. -/
def newStaticTable (s : Schema) : StaticTable := ⟨[], newDimensionTablesForSchema s⟩

/-- `DB`: the state the inserter goroutine and `flush` work on. -/
structure DB where
  staticTable : StaticTable
  memTable : MemTable
  latestTimestamp : ℤ

/-- Go's zero `time.Time`, January 1 of year 1, the initial `latestTimestamp`. -/
def zeroTime : ℤ := -GoTime.unixToInternal

/-- A fresh database (`NewDB`): empty tables. -/
def newDB (s : Schema) : DB := ⟨newStaticTable s, newMemTable s, zeroTime⟩

/-- `intervalStartOutOfRetention(timestamp)` at the clock reading `now`. -/
def intervalStartOutOfRetention (s : Schema) (now timestamp : ℤ) : Bool :=
  decide (GoTime.since now (timestamp + s.intervalDuration) > s.layout.retention)

/-- The body of `insertRows`' loop once the row is kept: collapse it into the interval of its
truncated timestamp, made empty when the memtable has none. -/
def MemTable.insertRow (s : Schema) (mt : MemTable) (timestamp : ℤ) (row : InsertionRow)
    (count : Nat) : MemTable :=
  let interval := (SortedMap.find? timestamp mt.intervals).getD
    ⟨timestamp, timestamp + s.intervalDuration, []⟩
  { mt with
    intervals := SortedMap.insert timestamp
      (interval.insertRow s row.dimensions row.metrics count) mt.intervals }

section Insert

-- `fmtG` is Go's `%v` of a `float64`, used only in error texts
variable (fmtG : F64 → String) (s : Schema) (now : ℤ)

/-- One pass of `insertRows`' loop: serialize the row against the dictionaries and collapse it
into the memtable, unless retention drops it. On success, gives the row's interval start and
its bytes when it was collapsed. -/
def DB.insertRow (db : DB) (unpackedRow : UnpackedRow) : Go (Option (ℤ × InsertionRow)) × DB :=
  match serializeRowMap fmtG s db.staticTable.dimensionTables unpackedRow.rowMap
      db.memTable.dimensionTables with
  | (.error e, dims) => (.error e, { db with memTable.dimensionTables := dims })
  | (.panic p, dims) => (.panic p, { db with memTable.dimensionTables := dims })
  | (.ok row, dims) =>
    let db := { db with
      memTable.dimensionTables := dims
      latestTimestamp := max db.latestTimestamp row.timestamp }
    let timestamp := GoTime.truncate row.timestamp s.intervalDuration
    -- drop the row if it is out of retention
    if s.runConfig.fixedRetention && intervalStartOutOfRetention s now timestamp then
      (.ok none, db)
    else
      (.ok (some (timestamp, row)),
        { db with memTable := db.memTable.insertRow s timestamp row unpackedRow.count })

/-- `DB.insertRows(rows)`, with the clock reading `now`: the first error stops the batch. -/
def DB.insertRows : DB → List UnpackedRow → Go Unit × DB
  | db, [] => (.ok (), db)
  | db, unpackedRow :: rows =>
    match db.insertRow fmtG s now unpackedRow with
    | (.ok _, db) => DB.insertRows db rows
    | (.error e, db) => (.error e, db)
    | (.panic p, db) => (.panic p, db)

end Insert

end Gumshoe
