import Gumshoe.Row

/-!
# Configuration

`internal/config/config.go`: `Config.makeSchema`, the checks a TOML configuration passes before
it becomes a `Schema`. The database directory (`MEMORY` for an in-memory database), the column
types (a `string:` prefix marks a dictionary column, which must have an unsigned type), at least
one metric, distinct column names, and lower bounds on the flush interval, the query parallelism,
the retention, the segment size (100 bytes) and the interval duration.

Nothing bounds the row size by the segment size: a schema whose rows are wider than its segments
is accepted (`Segments.lean` shows what writing such rows does).

`humanize.ParseBytes`, which reads the segment size, and `time.Duration.String`, which prints
durations in error texts, are parameters. `Duration` values are kept in nanoseconds. A segment
size of `2 ^ 63` bytes or more, which Go's `int(segmentSize)` turns negative, is kept as the
natural number.
-/

namespace Gumshoe

/-- The `[schema]` table of the configuration: column pairs are `[name, type]`. -/
structure ConfigSchema where
  segmentSize : String
  intervalDuration : ℤ
  timestampColumn : String × String
  dimensionColumns : List (String × String)
  metricColumns : List (String × String)

/-- `Config`, with the fields `makeSchema` reads (the listen and statsd addresses and the open
file limit are read by the server). -/
structure Config where
  databaseDir : String
  flushInterval : ℤ
  queryParallelism : ℤ
  retentionDays : ℤ
  schema : ConfigSchema

/-- `parseColumn(col)`: the name, the type without its `string:` prefix, and whether it had
one. -/
def parseColumn (col : String × String) : String × String × Bool :=
  if "string:".toList.isPrefixOf col.2.toList then
    (col.1, String.ofList (col.2.toList.drop "string:".length), true)
  else (col.1, col.2, false)

/-- One pass of `makeSchema`'s loop over the dimension columns. -/
def makeDimension (colPair : String × String) : Go DimensionColumn :=
  let (name, typ, isString) := parseColumn colPair
  if isString ∧ typ ∉ ["uint8", "uint16", "uint32"] then
    .error ("got type " ++ goQuote typ ++ " for column " ++ goQuote name ++
      " (must be unsigned int type)")
  else makeDimensionColumn name typ isString

/-- One pass of `makeSchema`'s loop over the metric columns. -/
def makeMetric (colPair : String × String) : Go MetricColumn :=
  let (name, typ, isString) := parseColumn colPair
  if isString then
    .error ("metric column (" ++ goQuote name ++
      ") has string type; not allowed for metric columns")
  else makeMetricColumn name typ

/-- The duplicate-name check: walk the names with the set of those seen, and give the first
name seen before. -/
def findDuplicate : List String → List String → Option String
  | _, [] => none
  | seen, n :: ns => if n ∈ seen then some n else findDuplicate (n :: seen) ns

/-- One second and one minute, in nanoseconds. -/
def second : ℤ := 1000000000

def minute : ℤ := 60 * second

section MakeSchema

-- `parseBytes` is `humanize.ParseBytes`; `durationString` is `time.Duration.String`
variable (parseBytes : String → Go Nat) (durationString : ℤ → String)

/-- The sanity checks at the end of `makeSchema`, in their order. -/
def sanityCheck (c : Config) (segmentSize : Nat) : Go Unit :=
  if c.flushInterval < second then
    .error ("flush interval is too small: " ++ durationString c.flushInterval)
  else if c.queryParallelism < 1 then
    .error ("bad query parallelism (must be positive): " ++ toString c.queryParallelism)
  else if c.retentionDays < 1 then
    .error ("retention days is too small: " ++ toString c.retentionDays)
  else if segmentSize < 100 then
    .error ("segment size seems too small: " ++ c.schema.segmentSize)
  else if c.schema.intervalDuration < minute then
    .error ("interval duration is too short: " ++ durationString c.schema.intervalDuration)
  else .ok ()

/-- `Config.makeSchema()`. -/
def Config.makeSchema (c : Config) : Go Schema := do
  let (dir, diskBacked) ← match c.databaseDir with
    | "" => .error ("database directory must be provided. Use \x27MEMORY\x27 to specify an " ++
        "in-memory DB.")
    | "MEMORY" => .ok ("", false)
    | d => .ok (d, true)
  let segmentSize ← parseBytes c.schema.segmentSize
  let (name, typ, isString) := parseColumn c.schema.timestampColumn
  if typ ≠ "uint32" then
    .error ("timestamp column (" ++ goQuote name ++ ") must be uint32")
  else if isString then
    .error "timestamp column cannot be a string"
  else
    let timestampColumn ← makeDimensionColumn name typ isString
    let dimensions ← c.schema.dimensionColumns.mapM makeDimension
    if c.schema.metricColumns = [] then
      .error "schema must include at least one metric column"
    else
      let metrics ← c.schema.metricColumns.mapM makeMetric
      match findDuplicate [timestampColumn.name]
          (dimensions.map (·.name) ++ metrics.map (·.name)) with
      | some n => .error ("duplicate column name " ++ goQuote n)
      | none =>
        sanityCheck durationString c segmentSize
        -- `time.Duration(c.RetentionDays) * 24 * time.Hour` in `int64`
        .ok ⟨timestampColumn.toColumn, dimensions, metrics, segmentSize,
          c.schema.intervalDuration, diskBacked, dir,
          ⟨true, wrapInt .int64 (c.retentionDays * (24 * 3600 * second))⟩⟩

/-- A configuration that passes the sanity checks has intervals of a minute or more. -/
theorem sanityCheck_intervalDuration {c : Config} {segmentSize : Nat}
    (h : sanityCheck durationString c segmentSize = .ok ()) : minute ≤ c.schema.intervalDuration := by
  unfold sanityCheck at h
  split at h
  · cases h
  split at h
  · cases h
  split at h
  · cases h
  split at h
  · cases h
  split at h
  · cases h
  · omega

/-- The schemas `makeSchema` gives have intervals of a minute or more. -/
theorem Config.makeSchema_intervalDuration {c : Config} {s : Schema}
    (h : c.makeSchema parseBytes durationString = .ok s) : minute ≤ s.intervalDuration := by
  unfold Config.makeSchema at h
  simp only at h
  -- the directory check, then the same checks for a database on disk and in memory
  split at h
  · cases h
  all_goals
    simp only [Go.ok_bind] at h
    obtain ⟨segmentSize, -, h⟩ := Go.bind_eq_ok.mp h
    split at h
    · cases h
    split at h
    · cases h
    obtain ⟨_, -, h⟩ := Go.bind_eq_ok.mp h
    obtain ⟨_, -, h⟩ := Go.bind_eq_ok.mp h
    split at h
    · cases h
    obtain ⟨_, -, h⟩ := Go.bind_eq_ok.mp h
    split at h
    · cases h
    obtain ⟨u, hcheck, h⟩ := Go.bind_eq_ok.mp h
    cases h
    exact sanityCheck_intervalDuration durationString hcheck

end MakeSchema

end Gumshoe
