import Gumshoe.DB

/-!
# Flushing the memtable

`flush.go` and the storage half of `dimension_table.go`. `flush` turns the memtable into a new
static table:

1. with `FixedRetention`, the static interval starts out of retention at the clock reading `now₁`
   and the memtable's at `now₂` are set aside (`partitionIntervalStartsByRetention`);
2. `combineSortedMemStaticIntervals` walks the two sorted key lists: a static interval alone is
   kept as it is, a memtable interval alone is written by `WriteMemInterval`, and an interval in
   both by `WriteCombinedInterval`;
3. `combineDimensionTables` appends the memtable's new strings to each static dictionary, in a
   new generation, stored to disk;
4. the new static table is handed to the request goroutine, which swaps it in, and `flush` waits
   for the requests on the old one to finish (`DB.prepareFlush` is `flush` up to there, and
   `DB.finishFlush` the rest);
5. on disk, the metadata file `db.json` is written (to `db.json.tmp`, then renamed), and the
   files of the old dictionaries and of the replaced or dropped intervals are removed;
6. the memtable is replaced by an empty one.

A failure in 2 or 3 returns before the swap; a failure in 5 returns after it, with the memtable
still full.

Go runs the interval writers on eight goroutines and keeps the first error a writer reports; here
they run one after another in key order, and the first error in key order is reported. Every
writer runs in both, so the files written are the same.

A Go map from start times is its `SortedMap`; the keys `flush` collects and sorts are that map's
keys in order.

The encodings the model does not compute are parameters (`Codecs`): the JSON text of the
metadata, and the gob stream of a dictionary's values as `gzip` writes it when closed.
-/

namespace Gumshoe

open GoFmt

/-! ## Retention -/

/-- `partitionIntervalStartsByRetention(keys)` at the clock reading `now`: the outdated starts and
the current ones, each in order. -/
def partitionIntervalStartsByRetention (s : Schema) (now : ℤ) (keys : List ℤ) :
    List ℤ × List ℤ :=
  (keys.filter (intervalStartOutOfRetention s now), keys.filter (!intervalStartOutOfRetention s now ·))

/-! ## Writing the intervals -/

/-- What `combineSortedMemStaticIntervals` asks a writer goroutine to do for one key. -/
inductive IntervalJob
  | reuse (key : ℤ)
  | writeMem (key : ℤ)
  | writeCombined (key : ℤ)
deriving DecidableEq, Repr

/-- The loop of `combineSortedMemStaticIntervals` over the sorted memtable and static keys, and
its two trailing loops: the jobs in the order they are sent, and the starts of the static
intervals that are combined (and so cleaned up). `fuel` bounds the loop. -/
def scheduleJobs : Nat → List ℤ → List ℤ → List IntervalJob × List ℤ
  | _, [], staticKeys => (staticKeys.map .reuse, [])
  | _, memKeys, [] => (memKeys.map .writeMem, [])
  | 0, _, _ => ([], [])
  | fuel + 1, memKey :: memKeys, staticKey :: staticKeys =>
    if staticKey < memKey then
      let (jobs, cleanup) := scheduleJobs fuel (memKey :: memKeys) staticKeys
      (.reuse staticKey :: jobs, cleanup)
    else if memKey < staticKey then
      let (jobs, cleanup) := scheduleJobs fuel memKeys (staticKey :: staticKeys)
      (.writeMem memKey :: jobs, cleanup)
    else
      let (jobs, cleanup) := scheduleJobs fuel memKeys staticKeys
      (.writeCombined staticKey :: jobs, staticKey :: cleanup)

section Jobs

variable (s : Schema) (db : DB)

/-- A map lookup of a key the map holds: the interval, or a nil pointer. -/
def lookupInterval {α : Type} (m : List (ℤ × α)) (key : ℤ) : Go α :=
  match SortedMap.find? key m with
  | some iv => .ok iv
  | none => .panic nilDereference

/-- One writer goroutine's response: the key, and the interval or the error. -/
def runJob : IntervalJob → GoState FS (ℤ × Go Interval)
  | .reuse key => do
    let iv ← GoState.lift (lookupInterval db.staticTable.intervals key)
    pure (key, .ok iv)
  | .writeMem key => do
    let mem ← GoState.lift (lookupInterval db.memTable.intervals key)
    let r ← GoState.attempt (s.writeMemInterval mem)
    pure (key, r.mapError ("cannot write mem interval: " ++ ·))
  | .writeCombined key => do
    let static ← GoState.lift (lookupInterval db.staticTable.intervals key)
    let mem ← GoState.lift (lookupInterval db.memTable.intervals key)
    let r ← GoState.attempt (s.writeCombinedInterval mem static)
    pure (key, r.mapError ("cannot write combined interval: " ++ ·))

/-- The writer goroutines, one job after another. -/
def runJobs : List IntervalJob → GoState FS (List (ℤ × Go Interval))
  | [] => pure []
  | job :: jobs => do
    let r ← runJob s db job
    let rs ← runJobs jobs
    pure (r :: rs)

end Jobs

/-- The receiver goroutine: `intervals[key] = interval` for each response, or the first error. -/
def collectResponses : List (ℤ × Go Interval) → List (ℤ × Interval) → Go (List (ℤ × Interval))
  | [], intervals => .ok intervals
  | (key, .ok iv) :: responses, intervals =>
    collectResponses responses (SortedMap.insert key iv intervals)
  | (_, .error e) :: _, _ => .error e
  | (_, .panic p) :: _, _ => .panic p

/-- `combineSortedMemStaticIntervals(memKeys, staticKeys)`: the new intervals, and the static
intervals to clean up. -/
def combineSortedMemStaticIntervals (s : Schema) (db : DB) (memKeys staticKeys : List ℤ) :
    GoState FS (List (ℤ × Interval) × List Interval) := do
  let (jobs, cleanupKeys) := scheduleJobs (memKeys.length + staticKeys.length) memKeys staticKeys
  let responses ← runJobs s db jobs
  let intervals ← GoState.lift (collectResponses responses [])
  let cleanup ← GoState.lift (cleanupKeys.mapM (lookupInterval db.staticTable.intervals))
  pure (intervals, cleanup)

/-! ## Dictionaries -/

/-- The ten-byte header a `gzip.Writer` writes on its first write. -/
def gzipHeader : List UInt8 := [0x1f, 0x8b, 8, 0, 0, 0, 0, 0, 0, 0xff]

/-- `DimensionTable.Filename(s, index)`. -/
def DimensionTable.filename (s : Schema) (t : DimensionTable) (index : Nat) : String :=
  joinPath s.dir
    ("dimension.index" ++ decimal index ++ ".generation" ++ decimal t.generation ++ ".gob.gz")

/-- `DimensionTable.Store(s, index)`, where `gzipBody values` is what the `gzip` writer writes
when closed: the compressed gob stream of the values and the trailer. `Encode` writes the values
into the `gzip` writer, whose first write puts its header in the file; the rest is written when
the deferred `gz.Close()` runs, and the deferred `f.Close()` follows. The errors of the two
deferred calls are dropped. -/
def DimensionTable.store (gzipBody : List String → List UInt8) (s : Schema) (t : DimensionTable)
    (index : Nat) : GoState FS Unit := fun fs =>
  let name := t.filename s index
  match FS.create name fs with
  | (.ok (), fs₁) =>
    match FS.write name gzipHeader fs₁ with
    | (.ok (), fs₂) =>
      let fs₃ := (FS.write name (gzipBody t.values) fs₂).2
      (.ok (), (FS.close name fs₃).2)
    | (r, fs₂) => (r, (FS.close name fs₂).2)
  | r => r

/-- The loop of `combineDimensionTables` from column `i` on: the new tables, and the old ones to
delete with their column indices. -/
def combineDimensionTablesFrom (gzipBody : List String → List UInt8) (s : Schema) (db : DB) :
    Nat → List DimensionColumn →
      GoState FS (List (Option DimensionTable) × List (DimensionTable × Nat))
  | _, [] => pure ([], [])
  | i, col :: cols =>
    if col.string then
      match db.memTable.dimensionTables.getD i none, db.staticTable.dimensionTables.getD i none with
      | some memTable, some staticTable =>
        if memTable.values = [] then do
          -- no new strings: the old dictionary is kept
          let (tables, old) ← combineDimensionTablesFrom gzipBody s db (i + 1) cols
          pure (some staticTable :: tables, old)
        else do
          let newTable := newDimensionTable (staticTable.generation + 1)
            (staticTable.values ++ memTable.values)
          if s.diskBacked then
            GoState.mapError ("error storing dimension table: " ++ ·) (newTable.store gzipBody s i)
          let (tables, old) ← combineDimensionTablesFrom gzipBody s db (i + 1) cols
          pure (some newTable :: tables, (staticTable, i) :: old)
      | _, _ => GoState.lift (.panic nilDereference)
    else do
      let (tables, old) ← combineDimensionTablesFrom gzipBody s db (i + 1) cols
      pure (none :: tables, old)

/-- `combineDimensionTables()`. -/
def combineDimensionTables (gzipBody : List String → List UInt8) (s : Schema) (db : DB) :
    GoState FS (List (Option DimensionTable) × List (DimensionTable × Nat)) :=
  combineDimensionTablesFrom gzipBody s db 0 s.dimensionColumns

/-! ## The metadata file -/

/-- What `json.MarshalIndent(db)` writes: the schema's persisted columns and sizes, each static
interval with its start (`intervalAndTime`) but without its segments, and each dictionary's
generation and size. -/
structure Metadata where
  timestampColumn : Column
  dimensionColumns : List DimensionColumn
  metricColumns : List MetricColumn
  segmentSize : Nat
  intervalDuration : ℤ
  intervals : List (ℤ × Interval)
  dimensionTables : List (Option (Nat × Nat))

/-- The metadata of a database. -/
def DB.metadata (s : Schema) (db : DB) : Metadata :=
  ⟨s.timestampColumn, s.dimensionColumns, s.metricColumns, s.segmentSize, s.intervalDuration,
    db.staticTable.intervals.map fun (t, iv) => (t, { iv with segments := [] }),
    db.staticTable.dimensionTables.map (Option.map fun t => (t.generation, t.size))⟩

/-- The instants `time.Time.MarshalJSON` accepts: years 0 to 9999, in nanoseconds since the
epoch (UTC). -/
def marshalableTime (t : ℤ) : Bool :=
  decide (-62167219200 * 1000000000 ≤ t ∧ t < 253402300800 * 1000000000)

/-- `json.MarshalIndent(db)`: the JSON text, or the error of the first time outside years 0 to
9999. -/
def marshalMetadata (metadataJSON : Metadata → List UInt8) (m : Metadata) : Go (List UInt8) :=
  if m.intervals.all fun (t, iv) =>
      marshalableTime t && marshalableTime iv.start && marshalableTime iv.stop then
    .ok (metadataJSON m)
  else
    .error ("json: error calling MarshalJSON for type time.Time: " ++
      "Time.MarshalJSON: year outside of range [0,9999]")

/-- `MetadataFilename` in the database directory. -/
def metadataFilename (s : Schema) : String := joinPath s.dir "db.json"

/-- `writeMetadataFile()`: the JSON text is written to `db.json.tmp`, which is then renamed. -/
def writeMetadataFile (metadataJSON : Metadata → List UInt8) (s : Schema) (db : DB) :
    GoState FS Unit :=
  match marshalMetadata metadataJSON (db.metadata s) with
  | .ok b => do
    FS.writeFile (metadataFilename s ++ ".tmp") b
    FS.rename (metadataFilename s ++ ".tmp") (metadataFilename s)
  | .error e => GoState.lift (.error ("error marshalling metadata JSON: " ++ e))
  | .panic p => GoState.lift (.panic p)

/-! ## Cleanup -/

/-- Remove each file in turn; a failed removal is only logged. -/
def removeFiles : List String → FS → FS
  | [], fs => fs
  | name :: names, fs => removeFiles names (FS.remove name fs).2

/-- The files of the old dictionaries `flush` deletes. -/
def dimensionTableFiles (s : Schema) (old : List (DimensionTable × Nat)) : List String :=
  old.map fun (t, i) => t.filename s i

/-- The files `cleanUpOldIntervals` deletes: each segment file of each interval. -/
def intervalFiles (s : Schema) (intervals : List Interval) : List String :=
  intervals.flatMap fun iv => (List.range iv.segments.length).map (iv.segmentFilename s)

/-! ## `flush` -/

/-- The encodings the model leaves abstract. -/
structure Codecs where
  metadataJSON : Metadata → List UInt8
  gzipBody : List String → List UInt8

/-- What `flush` holds when it hands the new static table to the request goroutine: the table,
the old dictionaries it replaced, and the static intervals it combined or dropped, which the
cleanup removes. -/
structure FlushPlan where
  staticTable : StaticTable
  oldDimTables : List (DimensionTable × Nat)
  cleanup : List Interval

/-- `flush` up to the hand-off, with the clock read at `now₁` for the static intervals' retention
and at `now₂` for the memtable's. -/
def DB.prepareFlush (codecs : Codecs) (s : Schema) (now₁ now₂ : ℤ) (db : DB) (fs : FS) :
    Go FlushPlan × FS :=
  let staticKeys := db.staticTable.intervals.map (·.1)
  let memKeys := db.memTable.intervals.map (·.1)
  -- with a fixed retention, drop old intervals; the outdated static ones are cleaned up
  let (outdatedStaticKeys, staticKeys, memKeys) :=
    if s.runConfig.fixedRetention then
      ((partitionIntervalStartsByRetention s now₁ staticKeys).1,
        (partitionIntervalStartsByRetention s now₁ staticKeys).2,
        (partitionIntervalStartsByRetention s now₂ memKeys).2)
    else ([], staticKeys, memKeys)
  let outdated := outdatedStaticKeys.filterMap fun key => SortedMap.find? key db.staticTable.intervals
  match combineSortedMemStaticIntervals s db memKeys staticKeys fs with
  | (.error e, fs₁) => (.error ("error combining mem+static intervals: " ++ e), fs₁)
  | (.panic p, fs₁) => (.panic p, fs₁)
  | (.ok (intervals, cleanup), fs₁) =>
    match combineDimensionTables codecs.gzipBody s db fs₁ with
    | (.error e, fs₂) => (.error ("cannot combine dimension tables: " ++ e), fs₂)
    | (.panic p, fs₂) => (.panic p, fs₂)
    | (.ok (newDimTables, oldDimTables), fs₂) =>
      (.ok ⟨⟨intervals, newDimTables⟩, oldDimTables, outdated ++ cleanup⟩, fs₂)

/-- `flush` after the requests on the old static table are done, on the database with the new
one swapped in: on disk, the metadata file and the cleanup; then a new memtable. -/
def DB.finishFlush (codecs : Codecs) (s : Schema) (db : DB) (pl : FlushPlan) (fs : FS) :
    Go Unit × DB × FS :=
  if s.diskBacked then
    match writeMetadataFile codecs.metadataJSON s db fs with
    | (.error e, fs₃) => (.error ("error writing metadata: " ++ e), db, fs₃)
    | (.panic p, fs₃) => (.panic p, db, fs₃)
    | (.ok (), fs₃) =>
      let fs₄ := removeFiles (dimensionTableFiles s pl.oldDimTables) fs₃
      let fs₅ := removeFiles (intervalFiles s pl.cleanup) fs₄
      (.ok (), { db with memTable := newMemTable s }, fs₅)
  else (.ok (), { db with memTable := newMemTable s }, fs)

/-- `DB.flush()`: the result, the database after it, and the directory. -/
def DB.flush (codecs : Codecs) (s : Schema) (now₁ now₂ : ℤ) (db : DB) (fs : FS) :
    Go Unit × DB × FS :=
  match db.prepareFlush codecs s now₁ now₂ fs with
  | (.error e, fs₁) => (.error e, db, fs₁)
  | (.panic p, fs₁) => (.panic p, db, fs₁)
  -- the request goroutine swaps in the new static table; `flush` waits for the requests on the
  -- old one, which change nothing here
  | (.ok pl, fs₁) => DB.finishFlush codecs s { db with staticTable := pl.staticTable } pl fs₁

end Gumshoe
