import Gumshoe.Storage

/-!
# Inserts and flushes that fail

`serializeRowMap` adds a new string to the memtable's dictionary while it checks the row's
columns, before the later columns are checked; a row rejected by a later column leaves the
string there, and the next flush stores it (`rejected_row_keeps_string`).

`flush` hands the new static table to the request goroutine before it writes the metadata file,
and resets the memtable only after that. So a flush that returns an error either failed before
the swap (writing an interval or a dictionary), and left the database exactly as it was, or
failed writing the metadata, on disk, after the swap: then the static table already holds what
the flush kept of the memtable's rows and strings, and the memtable still holds them too, so the
next flush that succeeds merges them in a second time, counts and dictionary values both
(`Reach.flush_error`). `metadata_failure_counts_twice` is a run where it does.

`DimensionTable.Store` drops the errors of its deferred `Close` calls, the ones that write the
compressed dictionary; a flush whose directory fails there succeeds and writes a `db.json` that
names a dictionary file holding only the gzip header (`store_drops_body_write_error`).
-/

namespace Gumshoe

section Errors

variable {fmtG : F64 → String} {codecs : Codecs} {s : Schema} {db : DB}
  {hS hM : List LogicalRow} {R : MetricWithCount → Aggregate → Prop}

/-- A flush that returns an error failed before the swap and left the database as it was, or
failed writing the metadata after the swap. Then the static table holds what the flush kept of
both histories and each string column's combined dictionary, while the memtable still holds its
rows and its strings: the next flush that succeeds merges the memtable's rows in a second time
and appends its strings to each dictionary a second time. -/
theorem Reach.flush_error
    (hR : ∀ v₁ v₂ a₁ a₂, R v₁ a₁ → R v₂ a₂ → R (combineValues s v₁ v₂) (a₁ + a₂))
    (hRnew : ∀ v : MetricWithCount, v.metric.length = s.layout.metricWidth → R v (aggregateOf s v))
    (h : Reach fmtG codecs s db hS hM) {now₁ now₂ : ℤ} {fs fs' : FS} {e : String} {db' : DB}
    (hf : DB.flush codecs s now₁ now₂ db fs = (.error e, db', fs')) :
    (db' = db ∧ ∃ e', e = "error combining mem+static intervals: " ++ e' ∨
        e = "cannot combine dimension tables: " ++ e') ∨
      (s.diskBacked = true ∧ (∃ e', e = "error writing metadata: " ++ e') ∧
        db'.memTable = db.memTable ∧
        StaticHolds R s db'.staticTable (retainedRows s now₁ now₂ hS hM) ∧
        MemHolds R s db'.memTable hM ∧
        (∀ {now₃ now₄ : ℤ} {fs₂ fs₃ : FS} {db₂ : DB},
          DB.flush codecs s now₃ now₄ db' fs₂ = (.ok (), db₂, fs₃) →
          StaticHolds R s db₂.staticTable
            (retainedRows s now₃ now₄ (retainedRows s now₁ now₂ hS hM) hM)) ∧
        ∀ i col static mem, s.dimensionColumns[i]? = some col → col.string = true →
          db.staticTable.dimensionTables.getD i none = some static →
          db.memTable.dimensionTables.getD i none = some mem →
          (db'.staticTable.dimensionTables.getD i none).map (·.values) =
              some (static.values ++ mem.values) ∧
            ∀ {now₃ now₄ : ℤ} {fs₂ fs₃ : FS} {db₂ : DB},
              DB.flush codecs s now₃ now₄ db' fs₂ = (.ok (), db₂, fs₃) →
              (db₂.staticTable.dimensionTables.getD i none).map (·.values) =
                some (static.values ++ mem.values ++ mem.values)) := by
  obtain ⟨hs, hm⟩ := h.holds hR hRnew
  rcases flush_cases hf with ⟨rfl, hr⟩ | ⟨st, hb, hr, rfl⟩ | ⟨st, hb, hdisk, rfl, hr⟩
  · -- before the swap: the message says which stage failed
    refine .inl ⟨rfl, ?_⟩
    rcases hr with ⟨e', he | he⟩ | ⟨p, hp⟩
    · cases he
      exact ⟨e', .inl rfl⟩
    · cases he
      exact ⟨e', .inr rfl⟩
    · cases hp
  · cases hr
  · -- after the swap: the memtable was not reset
    have hreach := h.metadataFailed hb hdisk
    refine .inr ⟨hdisk, ?_, rfl, StaticHolds.flush hs hm hR hb, hm, fun hnext => ?_,
      fun i col static mem hcol hstring hstatic hmem => ?_⟩
    · rcases hr with ⟨e', he⟩ | ⟨p, hp⟩
      · cases he
        exact ⟨e', rfl⟩
      · cases hp
    · -- the next flush moves what it keeps of both histories once more
      obtain ⟨st', hb', rfl⟩ := flush_ok hnext
      exact ((hreach.flushed hb').holds hR hRnew).1
    · have hst := hb.getD_dimensionTables hcol hstring hstatic hmem
      refine ⟨by rw [hst, Option.map_some, combinedTable_values], fun hnext => ?_⟩
      -- the next flush combines the swapped-in dictionary with the same memtable dictionary
      obtain ⟨st', hb', rfl⟩ := flush_ok hnext
      rw [hb'.getD_dimensionTables hcol hstring hst hmem, Option.map_some, combinedTable_values,
        combinedTable_values]

end Errors

/-! ## Runs on a disk-backed database -/

/-- A disk-backed schema in the directory `db` with a `uint8` string dimension `name` and a
`uint8` metric `clicks`. -/
def diskSchema : Schema :=
  ⟨Column.make "at" .uint32, [{ Column.make "name" .uint8 with string := true }],
    [Column.make "clicks" .uint8], 1000, 3600 * 1000000000, true, "db", ⟨false, 0⟩⟩

/-- The JSON row `{"at": 0, "name": "a", "clicks": 1}`, counted once. -/
def nameRow : UnpackedRow :=
  ⟨⟨[("at", .float64 ⟨0⟩), ("name", .string "a"), ("clicks", .float64 ⟨0x3FF0000000000000⟩)],
    by decide⟩, 1⟩

/-- An empty directory whose `k`-th call fails with `ENOSPC`. -/
def faultAt (k : Nat) : FS :=
  ⟨fun _ => none, fun n => if n = k then some "no space left on device" else none, 0⟩

/-- Codecs that write one byte of JSON and one byte of compressed dictionary. -/
def plainCodecs : Codecs := ⟨fun _ => [1], fun _ => [2]⟩

/-- The state after inserting `nameRow` into a new database on `diskSchema`. -/
def nameInserted : DB :=
  ((newDB diskSchema).insertRows (fun _ => "") diskSchema 0 [nameRow]).2

/-- The flush of `nameInserted` on an empty directory whose `k`-th call fails. -/
def nameFlush (k : Nat) : Go Unit × DB × FS :=
  DB.flush plainCodecs diskSchema 0 0 nameInserted (faultAt k)

/-- The rows `nameInserted` holds in its memtable. -/
def nameRows : List LogicalRow :=
  [] ++ (newDB diskSchema).insertedRows (fun _ => "") diskSchema 0 [nameRow]

/-- The JSON row `{"at": 0, "name": "new", "clicks": 1000}`, counted once: its metric does not
fit `uint8` (`0x408F400000000000` is the `float64` 1000). -/
def wideClicksRow : UnpackedRow :=
  ⟨⟨[("at", .float64 ⟨0⟩), ("name", .string "new"), ("clicks", .float64 ⟨0x408F400000000000⟩)],
    by decide⟩, 1⟩

/-- A new database on `diskSchema` after the batch `[wideClicksRow]` and then the batch
`[nameRow]`; Go's `%v` prints the `float64` 1000 as `1000`. -/
def leakedInsert : DB :=
  (((newDB diskSchema).insertRows (fun _ => "1000") diskSchema 0 [wideClicksRow]).2.insertRows
    (fun _ => "1000") diskSchema 0 [nameRow]).2

/-- The runs of this module, evaluated by the kernel in one pass: the flushes of `nameInserted`
whose calls 10, 8 and 100 fail, the flush after the first, and the batches of a rejected row and
a later row with the flush after them. -/
theorem faultRuns :
    ((nameFlush 10).1 =
          .error "error writing metadata: open db/db.json.tmp: no space left on device" ∧
        ((nameFlush 10).2.1.staticTable.storedRow diskSchema 0 [0, 0]).map (·.count) = some 1 ∧
        (nameFlush 10).2.1.memTable.intervals.map
            (fun p => p.2.tree.map fun r => (r.1, r.2.count)) = [[([0, 0], 1)]] ∧
        (DB.flush plainCodecs diskSchema 0 0 (nameFlush 10).2.1 (nameFlush 10).2.2).1 = .ok () ∧
        ((DB.flush plainCodecs diskSchema 0 0 (nameFlush 10).2.1
            (nameFlush 10).2.2).2.1.staticTable.storedRow diskSchema 0 [0, 0]).map (·.count) =
          some 2 ∧
        (DB.flush plainCodecs diskSchema 0 0 (nameFlush 10).2.1
            (nameFlush 10).2.2).2.1.staticTable.dimensionTables.map (Option.map (·.values)) =
          [some ["a", "a"]] ∧
        (nameFlush 100).1 = .ok () ∧
        ((nameFlush 100).2.1.staticTable.storedRow diskSchema 0 [0, 0]).map (·.count) = some 1) ∧
      ((nameFlush 8).1 = .ok () ∧
        ((nameFlush 8).2.1.metadata diskSchema).dimensionTables = [some (1, 1)] ∧
        (nameFlush 8).2.2.files "db/dimension.index0.generation1.gob.gz" = some gzipHeader ∧
        (nameFlush 100).2.2.files "db/dimension.index0.generation1.gob.gz" =
          some (gzipHeader ++ plainCodecs.gzipBody ["a"])) ∧
      (((newDB diskSchema).insertRows (fun _ => "1000") diskSchema 0 [wideClicksRow]).1 =
          .error "value 1000 too large for column clicks (type uint8)" ∧
        ((newDB diskSchema).insertRows (fun _ => "1000") diskSchema 0
            [wideClicksRow]).2.memTable.dimensionTables.map (Option.map (·.values)) =
          [some ["new"]] ∧
        ((newDB diskSchema).insertRows (fun _ => "1000") diskSchema 0
            []).2.memTable.dimensionTables.map (Option.map (·.values)) =
          [some []] ∧
        (DB.flush plainCodecs diskSchema 0 0 leakedInsert
            (faultAt 1000)).2.1.staticTable.dimensionTables.map (Option.map (·.values)) =
          [some ["new", "a"]] ∧
        ((DB.flush plainCodecs diskSchema 0 0 leakedInsert
            (faultAt 1000)).2.1.staticTable.storedRow diskSchema 0 [0, 1]).map (·.count) =
          some 1) := by
  decide +kernel

/-- The flush of `nameInserted` whose call 10, creating `db.json.tmp`, fails: it fails after the
swap, with the exact aggregates of the row in both tables. -/
theorem metadataFailure_of_reach :
    ((nameFlush 10).2.1 = nameInserted ∧
        ∃ e', "error writing metadata: open db/db.json.tmp: no space left on device" =
            "error combining mem+static intervals: " ++ e' ∨
          "error writing metadata: open db/db.json.tmp: no space left on device" =
            "cannot combine dimension tables: " ++ e') ∨
      (diskSchema.diskBacked = true ∧
        (∃ e', "error writing metadata: open db/db.json.tmp: no space left on device" =
          "error writing metadata: " ++ e') ∧
        (nameFlush 10).2.1.memTable = nameInserted.memTable ∧
        StaticHolds (Represents diskSchema) diskSchema (nameFlush 10).2.1.staticTable
          (retainedRows diskSchema 0 0 [] nameRows) ∧
        MemHolds (Represents diskSchema) diskSchema (nameFlush 10).2.1.memTable nameRows ∧
        (∀ {now₃ now₄ : ℤ} {fs₂ fs₃ : FS} {db₂ : DB},
          DB.flush plainCodecs diskSchema now₃ now₄ (nameFlush 10).2.1 fs₂ = (.ok (), db₂, fs₃) →
            StaticHolds (Represents diskSchema) diskSchema db₂.staticTable
              (retainedRows diskSchema now₃ now₄ (retainedRows diskSchema 0 0 [] nameRows)
                nameRows)) ∧
        ∀ i col static mem, diskSchema.dimensionColumns[i]? = some col → col.string = true →
          nameInserted.staticTable.dimensionTables.getD i none = some static →
          nameInserted.memTable.dimensionTables.getD i none = some mem →
          ((nameFlush 10).2.1.staticTable.dimensionTables.getD i none).map (·.values) =
              some (static.values ++ mem.values) ∧
            ∀ {now₃ now₄ : ℤ} {fs₂ fs₃ : FS} {db₂ : DB},
              DB.flush plainCodecs diskSchema now₃ now₄ (nameFlush 10).2.1 fs₂ =
                  (.ok (), db₂, fs₃) →
                (db₂.staticTable.dimensionTables.getD i none).map (·.values) =
                  some (static.values ++ mem.values ++ mem.values)) := by
  have hint : diskSchema.IntegerMetrics := by decide
  have h : Reach (fun _ => "") plainCodecs diskSchema nameInserted [] nameRows :=
    Reach.insert 0 [nameRow] Reach.init
  have hf : nameFlush 10 =
      (.error "error writing metadata: open db/db.json.tmp: no space left on device",
        (nameFlush 10).2.1,
        (nameFlush 10).2.2) :=
    Prod.ext faultRuns.1.1 Prod.mk.eta.symm
  exact Reach.flush_error (fun _ _ _ _ h₁ h₂ => h₁.combineValues hint h₂)
    (fun _ hv => represents_aggregateOf hv) h hf

/-- One row, a flush that fails creating `db.json.tmp`, and a flush that succeeds: the failed
flush leaves the row both in the static table and in the memtable, and the next one stores it
with count 2 and the string `a` twice in the dictionary; without the failed flush it is stored
once. -/
theorem metadata_failure_counts_twice :
    (nameFlush 10).1 =
        .error "error writing metadata: open db/db.json.tmp: no space left on device" ∧
      ((nameFlush 10).2.1.staticTable.storedRow diskSchema 0 [0, 0]).map (·.count) = some 1 ∧
      (nameFlush 10).2.1.memTable.intervals.map (fun p => p.2.tree.map fun r => (r.1, r.2.count)) =
        [[([0, 0], 1)]] ∧
      (DB.flush plainCodecs diskSchema 0 0 (nameFlush 10).2.1 (nameFlush 10).2.2).1 = .ok () ∧
      ((DB.flush plainCodecs diskSchema 0 0 (nameFlush 10).2.1
          (nameFlush 10).2.2).2.1.staticTable.storedRow diskSchema 0 [0, 0]).map (·.count) =
        some 2 ∧
      (DB.flush plainCodecs diskSchema 0 0 (nameFlush 10).2.1
          (nameFlush 10).2.2).2.1.staticTable.dimensionTables.map (Option.map (·.values)) =
        [some ["a", "a"]] ∧
      (nameFlush 100).1 = .ok () ∧
      ((nameFlush 100).2.1.staticTable.storedRow diskSchema 0 [0, 0]).map (·.count) = some 1 :=
  faultRuns.1

/-- A flush whose 9th call, the write of the compressed dictionary, fails: it succeeds, and the
metadata names generation 1 of dictionary 0, holding one value, whose file holds only the gzip
header; without the fault the file holds the header and the compressed values. -/
theorem store_drops_body_write_error :
    (nameFlush 8).1 = .ok () ∧
      ((nameFlush 8).2.1.metadata diskSchema).dimensionTables = [some (1, 1)] ∧
      (nameFlush 8).2.2.files "db/dimension.index0.generation1.gob.gz" = some gzipHeader ∧
      (nameFlush 100).2.2.files "db/dimension.index0.generation1.gob.gz" =
        some (gzipHeader ++ plainCodecs.gzipBody ["a"]) :=
  faultRuns.2.1

/-! ## A rejected row -/

/-- A batch whose first row is rejected for its metric returns the error, but leaves the row's
string `new` in the memtable's dictionary, where the empty prefix of the batch leaves none. A
later row and a flush then store `new` at index 0 and the later row's string at index 1. -/
theorem rejected_row_keeps_string :
    ((newDB diskSchema).insertRows (fun _ => "1000") diskSchema 0 [wideClicksRow]).1 =
        .error "value 1000 too large for column clicks (type uint8)" ∧
      ((newDB diskSchema).insertRows (fun _ => "1000") diskSchema 0
          [wideClicksRow]).2.memTable.dimensionTables.map (Option.map (·.values)) =
        [some ["new"]] ∧
      ((newDB diskSchema).insertRows (fun _ => "1000") diskSchema 0
          []).2.memTable.dimensionTables.map (Option.map (·.values)) =
        [some []] ∧
      (DB.flush plainCodecs diskSchema 0 0 leakedInsert
          (faultAt 1000)).2.1.staticTable.dimensionTables.map (Option.map (·.values)) =
        [some ["new", "a"]] ∧
      ((DB.flush plainCodecs diskSchema 0 0 leakedInsert
          (faultAt 1000)).2.1.staticTable.storedRow diskSchema 0 [0, 1]).map (·.count) = some 1 :=
  faultRuns.2.2

end Gumshoe
