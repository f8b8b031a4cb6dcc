import Gumshoe.FlushSpec
import Gumshoe.Collapse
import Gumshoe.RowSpec

/-!
# Runs of inserts and flushes

The logical content of a database is a list of logical rows: an interval start and dimension
bytes, and the aggregate the row stands for (`LogicalRow`). A run keeps two such histories, the
rows the static table holds and the rows the memtable holds; `Reach` follows the inserter
goroutine through batches of inserts (`DB.insertRows`, each accepted row appended to the
memtable's history, `DB.insertedRows`) and successful flushes (the memtable's history moves to
the static table's, without the intervals retention drops, `retainedRows`).

`StaticHolds R` and `MemHolds R` say a table holds a history: each interval's rows, in key
order, track (`SortedMap.Tracks R`) the history's rows with that start. With `R = Represents s`
on an integer schema this is the storage contract; with the relation true of all values it says
which keys are stored.

**Theorem (`Reach.holds`).** In every reachable state the static table and the memtable hold
their histories, for any relation `combineValues` maps to addition that holds of each row as it
is inserted.

The step lemmas are `MemHolds.insertRows` and `StaticHolds.flush`; both take the flush and the
row serializer apart only through their inversion lemmas (`flush_cases`,
`combineSortedMemStaticIntervals_ok`, `length_serializeRowMap`).
-/

namespace Gumshoe

open SortedMap

/-- A logical row: its interval start and dimension bytes, and what it stands for. -/
abbrev LogicalRow := (ℤ × List UInt8) × Aggregate

section Histories

variable (fmtG : F64 → String) (s : Schema) (now : ℤ)

/-- The rows a batch collapses into the memtable, as logical rows: each accepted row before the
first rejected one, unless retention drops it. -/
def DB.insertedRows : DB → List UnpackedRow → List LogicalRow
  | _, [] => []
  | db, unpackedRow :: rows =>
    match db.insertRow fmtG s now unpackedRow with
    | (.ok r, db') =>
      (r.map fun (I, row) =>
          ((I, row.dimensions), aggregateOf s ⟨unpackedRow.count, row.metrics⟩)).toList ++
        DB.insertedRows db' rows
    | _ => []

/-- A flush keeps the interval `I` of a table whose starts it checks at the clock reading `now`:
always, or with `FixedRetention` when the interval is in retention. -/
def keepsInterval (I : ℤ) : Bool :=
  !(s.runConfig.fixedRetention && intervalStartOutOfRetention s now I)

/-- The logical rows a successful flush moves into the new static table: the static table's and
the memtable's, each without the intervals out of retention at its clock reading. -/
def retainedRows (now₁ now₂ : ℤ) (hStatic hMem : List LogicalRow) : List LogicalRow :=
  hStatic.filter (fun r => keepsInterval s now₁ r.1.1) ++
    hMem.filter (fun r => keepsInterval s now₂ r.1.1)

end Histories

theorem mem_keptKeys {s : Schema} {now I : ℤ} {keys : List ℤ} :
    I ∈ keptKeys s now keys ↔ I ∈ keys ∧ keepsInterval s now I = true := by
  unfold keptKeys keepsInterval partitionIntervalStartsByRetention
  split <;> simp_all

/-! ## What a table holds -/

section Holds

variable (R : MetricWithCount → Aggregate → Prop) (s : Schema)

/-- The rows a map holds under the interval start `I`. -/
def rowsAt {α : Type} (rows : α → List Row) (intervals : List (ℤ × α)) (I : ℤ) : List Row :=
  (find? I intervals).elim [] rows

/-- The memtable holds the history `hist`: its intervals are sorted by start, each lasts one
interval duration from its key, its tree is sorted with rows of the schema's widths, and tracks
the history's rows with that start. -/
structure MemHolds (mt : MemTable) (hist : List LogicalRow) : Prop where
  sorted : Sorted mt.intervals
  interval : ∀ I iv, find? I mt.intervals = some iv →
    iv.start = I ∧ iv.stop = I + s.intervalDuration ∧ Sorted iv.tree ∧ KeysFit s iv.tree
  tracks : ∀ I, Tracks R (rowsAt MemInterval.tree mt.intervals I) (restrict I hist)

/-- The static table holds the history `hist`, in the same way, reading each interval's rows
back from its segments. -/
structure StaticHolds (st : StaticTable) (hist : List LogicalRow) : Prop where
  sorted : Sorted st.intervals
  interval : ∀ I iv, find? I st.intervals = some iv →
    iv.start = I ∧ iv.stop = I + s.intervalDuration ∧ Sorted (iv.rows s) ∧ KeysFit s (iv.rows s)
  tracks : ∀ I, Tracks R (rowsAt (Interval.rows s) st.intervals I) (restrict I hist)

end Holds

section Steps

variable {R : MetricWithCount → Aggregate → Prop} {s : Schema}

/-- A map that tracks a history has no row under a start the history does not have. -/
theorem Tracks.eq_nil_of_nil {l : List (List UInt8 × Aggregate)}
    (h : Tracks R ([] : List Row) l) : l = [] := by
  rw [List.eq_nil_iff_forall_not_mem]
  intro p hp
  have hnone := (h.find?_eq_none_iff p.1).mp rfl
  exact hnone p hp rfl

theorem keysFit_absorb {rows : List Row} (hfit : KeysFit s rows) {k : List UInt8}
    {v : MetricWithCount} (hk : k.length = s.layout.dimensionWidth)
    (hv : v.metric.length = s.layout.metricWidth) :
    KeysFit s (absorb (combineValues s) k v rows) := by
  intro r hr
  rcases mem_insert hr with rfl | hr
  · refine ⟨hk, ?_⟩
    cases hfind : find? k rows with
    | none => exact hv
    | some w =>
      exact length_metricBytesAdd _ (hfit _ (find?_eq_some_mem hfind)).2
  · exact hfit r hr

/-- What the memtable holds depends only on its intervals. -/
theorem MemHolds.of_intervals {mt mt' : MemTable} {hist : List LogicalRow}
    (h : mt'.intervals = mt.intervals) (hm : MemHolds R s mt hist) : MemHolds R s mt' hist where
  sorted := h ▸ hm.sorted
  interval := h ▸ hm.interval
  tracks := h ▸ hm.tracks

variable (hR : ∀ v₁ v₂ a₁ a₂, R v₁ a₁ → R v₂ a₂ → R (combineValues s v₁ v₂) (a₁ + a₂))
include hR

/-- Collapsing an accepted row into the memtable appends it to the memtable's history. -/
theorem MemHolds.insertRow {mt : MemTable} {hist : List LogicalRow} (hm : MemHolds R s mt hist)
    {I : ℤ} {row : InsertionRow} {count : Nat} {a : Aggregate}
    (hdims : row.dimensions.length = s.layout.dimensionWidth)
    (hmetrics : row.metrics.length = s.layout.metricWidth) (ha : R ⟨count, row.metrics⟩ a) :
    MemHolds R s (mt.insertRow s I row count) (hist ++ [((I, row.dimensions), a)]) := by
  -- the interval the row goes to: the memtable's, or a new empty one
  have hiv : ∀ iv, (find? I mt.intervals).getD ⟨I, I + s.intervalDuration, []⟩ = iv →
      iv.start = I ∧ iv.stop = I + s.intervalDuration ∧ Sorted iv.tree ∧ KeysFit s iv.tree ∧
        Tracks R iv.tree (restrict I hist) := by
    intro iv hget
    have htracks := hm.tracks I
    unfold rowsAt at htracks
    cases hfind : find? I mt.intervals with
    | none =>
      rw [hfind] at hget htracks
      subst hget
      exact ⟨rfl, rfl, sorted_nil, fun _ h => absurd h List.not_mem_nil, htracks⟩
    | some iv₀ =>
      rw [hfind] at hget htracks
      subst hget
      obtain ⟨hstart, hstop, hsorted, hfit⟩ := hm.interval I iv₀ hfind
      exact ⟨hstart, hstop, hsorted, hfit, htracks⟩
  obtain ⟨hstart, hstop, hsorted, hfit, htracks⟩ := hiv _ rfl
  simp only [MemTable.insertRow]
  refine ⟨sorted_insert _ _ hm.sorted, fun I' iv' hI' => ?_, fun I' => ?_⟩
  · rw [find?_insert] at hI'
    split at hI'
    · rename_i hI
      subst hI
      cases hI'
      refine ⟨hstart, hstop, MemInterval.sorted_insertRow s hsorted _ _ _, ?_⟩
      rw [MemInterval.insertRow_tree]
      exact keysFit_absorb hfit hdims hmetrics
    · exact hm.interval I' iv' hI'
  · unfold rowsAt
    rw [find?_insert, restrict_append]
    split
    · rename_i hI
      subst hI
      rw [restrict_singleton]
      exact Tracks.insertRow hR htracks ha
    · rename_i hI
      rw [restrict_singleton_of_ne _ _ (Ne.symm hI), List.append_nil]
      exact hm.tracks I'

end Steps

section Insert

variable {fmtG : F64 → String} {s : Schema} {now : ℤ}

/-- Everything one pass of the insert loop does: the static table is untouched, the memtable
dictionaries are what serializing the row left, and the intervals change only when the row is
accepted and kept, by collapsing it into the interval of its truncated timestamp. -/
theorem DB.insertRow_spec (db : DB) (unpackedRow : UnpackedRow) :
    (db.insertRow fmtG s now unpackedRow).2.staticTable = db.staticTable ∧
      (db.insertRow fmtG s now unpackedRow).2.memTable.dimensionTables =
        (serializeRowMap fmtG s db.staticTable.dimensionTables unpackedRow.rowMap
          db.memTable.dimensionTables).2 ∧
      ((∀ r, (db.insertRow fmtG s now unpackedRow).1 ≠ .ok (some r)) →
        (db.insertRow fmtG s now unpackedRow).2.memTable.intervals = db.memTable.intervals) ∧
      (∀ I row, (db.insertRow fmtG s now unpackedRow).1 = .ok (some (I, row)) →
        (serializeRowMap fmtG s db.staticTable.dimensionTables unpackedRow.rowMap
          db.memTable.dimensionTables).1 = .ok row ∧
        (db.insertRow fmtG s now unpackedRow).2.memTable.intervals =
          (db.memTable.insertRow s I row unpackedRow.count).intervals) := by
  unfold DB.insertRow
  rcases hser : serializeRowMap fmtG s db.staticTable.dimensionTables unpackedRow.rowMap
    db.memTable.dimensionTables with ⟨_ | _ | _, dims⟩
  · rename_i row
    simp only
    split
    · exact ⟨rfl, rfl, fun _ => rfl, fun _ _ h => by cases h⟩
    · refine ⟨rfl, rfl, fun h => absurd rfl (h _), fun I row' h => ?_⟩
      cases h
      exact ⟨rfl, rfl⟩
  · exact ⟨rfl, rfl, fun _ => rfl, fun _ _ h => by cases h⟩
  · exact ⟨rfl, rfl, fun _ => rfl, fun _ _ h => by cases h⟩

/-- A batch leaves the static table alone. -/
theorem DB.staticTable_insertRows (db : DB) (rows : List UnpackedRow) :
    (db.insertRows fmtG s now rows).2.staticTable = db.staticTable := by
  induction rows generalizing db with
  | nil => rfl
  | cons row rows ih =>
    have hstatic := (@DB.insertRow_spec fmtG s now db row).1
    simp only [DB.insertRows]
    split
    · rename_i r db' heq
      rw [heq] at hstatic
      rw [ih, hstatic]
    · rename_i e db' heq
      rw [heq] at hstatic
      exact hstatic
    · rename_i p db' heq
      rw [heq] at hstatic
      exact hstatic

variable {R : MetricWithCount → Aggregate → Prop}
  (hR : ∀ v₁ v₂ a₁ a₂, R v₁ a₁ → R v₂ a₂ → R (combineValues s v₁ v₂) (a₁ + a₂))
  (hRnew : ∀ v : MetricWithCount, v.metric.length = s.layout.metricWidth → R v (aggregateOf s v))
include hR hRnew

/-- A batch appends the rows it inserts to the memtable's history. -/
theorem MemHolds.insertRows {db : DB} {hist : List LogicalRow} (hm : MemHolds R s db.memTable hist)
    (rows : List UnpackedRow) :
    MemHolds R s (db.insertRows fmtG s now rows).2.memTable
      (hist ++ db.insertedRows fmtG s now rows) := by
  induction rows generalizing db hist with
  | nil => simpa [DB.insertRows, DB.insertedRows] using hm
  | cons row rows ih =>
    obtain ⟨-, -, hkeep, hins⟩ := @DB.insertRow_spec fmtG s now db row
    simp only [DB.insertRows, DB.insertedRows]
    rcases hres : db.insertRow fmtG s now row with ⟨_ | _ | _, db'⟩
    · rename_i o
      rw [hres] at hkeep hins
      cases o with
      | none =>
        simp only [Option.map_none, Option.toList_none, List.nil_append]
        exact ih (hm.of_intervals (hkeep fun _ h => by cases h))
      | some p =>
        obtain ⟨I, r⟩ := p
        -- an accepted row has the schema's widths, so its own bytes stand for it
        obtain ⟨hser, hiv⟩ := hins I r rfl
        obtain ⟨hdims, hmetrics⟩ := length_serializeRowMap (Prod.ext hser rfl)
        have hm' := (hm.insertRow hR hdims hmetrics (hRnew ⟨row.count, r.metrics⟩ hmetrics)).of_intervals hiv
        simp only [Option.map_some, Option.toList_some]
        rw [← List.append_assoc]
        exact ih hm'
    · rw [hres] at hkeep
      simpa using hm.of_intervals (hkeep fun _ h => by cases h)
    · rw [hres] at hkeep
      simpa using hm.of_intervals (hkeep fun _ h => by cases h)

end Insert

/-! ## Flushes -/

section Flush

variable {R : MetricWithCount → Aggregate → Prop} {s : Schema}

/-- The starts of a sorted interval map increase. -/
theorem keys_pairwise_lt {α : Type} {l : List (ℤ × α)} (h : Sorted l) :
    (l.map (·.1)).Pairwise (· < ·) :=
  List.pairwise_map.mpr (h.imp fun hlt => compare_lt_iff_lt.mp hlt)

theorem pairwise_keptKeys {now : ℤ} {keys : List ℤ} (h : keys.Pairwise (· < ·)) :
    (keptKeys s now keys).Pairwise (· < ·) := by
  unfold keptKeys partitionIntervalStartsByRetention
  split
  · exact h.filter _
  · exact h

/-- What a flush keeps of a table's history under `I`: all of it when `I` is a key of the table
that retention keeps, nothing otherwise. -/
theorem restrict_filter_keepsInterval {α : Type} {rows : α → List Row} {intervals : List (ℤ × α)}
    {hist : List LogicalRow} {now I : ℤ} (ht : Tracks R (rowsAt rows intervals I) (restrict I hist)) :
    restrict I (hist.filter fun r => keepsInterval s now r.1.1) =
      if I ∈ keptKeys s now (intervals.map (·.1)) then restrict I hist else [] := by
  rw [restrict_filter (keepsInterval s now)]
  by_cases hk : keepsInterval s now I = true
  · rw [if_pos hk]
    by_cases hI : I ∈ intervals.map (·.1)
    · rw [if_pos (mem_keptKeys.mpr ⟨hI, hk⟩)]
    · rw [if_neg fun h => hI (mem_keptKeys.mp h).1]
      -- a start the table does not have has no rows in its history
      unfold rowsAt at ht
      rw [find?_eq_none_of_not_mem hI] at ht
      exact Tracks.eq_nil_of_nil ht
  · rw [if_neg hk, if_neg fun h => hk (mem_keptKeys.mp h).2]

variable {db : DB} {hS hM : List LogicalRow} {now₁ now₂ : ℤ}
  (hs : StaticHolds R s db.staticTable hS) (hm : MemHolds R s db.memTable hM)
include hs hm

/-- The rows a flush keeps under `I`: the static table's when it keeps `I` there, followed by the
memtable's when it keeps `I` there. -/
theorem restrict_retainedRows (I : ℤ) :
    restrict I (retainedRows s now₁ now₂ hS hM) =
      (if I ∈ keptKeys s now₁ (db.staticTable.intervals.map (·.1)) then restrict I hS else []) ++
        (if I ∈ keptKeys s now₂ (db.memTable.intervals.map (·.1)) then restrict I hM else []) := by
  rw [retainedRows, restrict_append, restrict_filter_keepsInterval (hs.tracks I),
    restrict_filter_keepsInterval (hm.tracks I)]

/-- The interval a flush job gives for its key holds what the flush keeps there. -/
theorem IntervalJob.Result.holds
    (hR : ∀ v₁ v₂ a₁ a₂, R v₁ a₁ → R v₂ a₂ → R (combineValues s v₁ v₂) (a₁ + a₂))
    {job : IntervalJob} {iv : Interval}
    (hfits : job.Fits (keptKeys s now₂ (db.memTable.intervals.map (·.1)))
      (keptKeys s now₁ (db.staticTable.intervals.map (·.1))))
    (hres : job.Result s db iv) :
    iv.start = job.key ∧ iv.stop = job.key + s.intervalDuration ∧ Sorted (iv.rows s) ∧
      KeysFit s (iv.rows s) ∧ Tracks R (iv.rows s) (restrict job.key (retainedRows s now₁ now₂ hS hM)) := by
  cases job with
  | reuse I =>
    -- the static interval, which the memtable does not have
    obtain ⟨hin, hout⟩ := hfits
    have htracks := hs.tracks I
    unfold rowsAt at htracks
    rw [hres] at htracks
    obtain ⟨hstart, hstop, hsorted, hfit⟩ := hs.interval I iv hres
    rw [IntervalJob.key, restrict_retainedRows hs hm, if_pos hin, if_neg hout, List.append_nil]
    exact ⟨hstart, hstop, hsorted, hfit, htracks⟩
  | writeMem I =>
    -- the memtable's tree written out, which the static table does not have
    obtain ⟨hin, hout⟩ := hfits
    obtain ⟨mem, fs, fs', hfind, hwrite⟩ := hres
    have htracks := hm.tracks I
    unfold rowsAt at htracks
    rw [hfind] at htracks
    obtain ⟨hstart, hstop, hsorted, hfit⟩ := hm.interval I mem hfind
    obtain ⟨hwritten, -, hstart', hstop', -⟩ := Schema.writeMemInterval_spec hfit hwrite
    rw [IntervalJob.key, restrict_retainedRows hs hm, if_neg hout, if_pos hin, List.nil_append,
      hwritten.rows_eq]
    exact ⟨hstart'.trans hstart, hstop'.trans hstop, hsorted, hfit, htracks⟩
  | writeCombined I =>
    -- the merge of both; it lists the memtable's rows first, and totals do not see the order
    obtain ⟨hinMem, hinStatic⟩ := hfits
    obtain ⟨mem, static, fs, fs', hmfind, hsfind, hwrite⟩ := hres
    have hmt := hm.tracks I
    have hst := hs.tracks I
    unfold rowsAt at hmt hst
    rw [hmfind] at hmt
    rw [hsfind] at hst
    obtain ⟨hstart, hstop, hmsorted, hmfit⟩ := hm.interval I mem hmfind
    obtain ⟨-, -, hssorted, hsfit⟩ := hs.interval I static hsfind
    obtain ⟨hwritten, -, hstart', hstop', -⟩ := Schema.writeCombinedInterval_spec hmfit hsfit hwrite
    rw [IntervalJob.key, restrict_retainedRows hs hm, if_pos hinStatic, if_pos hinMem,
      hwritten.rows_eq]
    exact ⟨hstart'.trans hstart, hstop'.trans hstop, sorted_mergeWith _ hmsorted hssorted,
      keysFit_mergeWith hmfit hsfit, (Tracks.mergeWith hR hmsorted hssorted hmt hst).append_comm⟩

/-- The static table a flush builds holds what it keeps of both histories. -/
theorem StaticHolds.flush
    (hR : ∀ v₁ v₂ a₁ a₂, R v₁ a₁ → R v₂ a₂ → R (combineValues s v₁ v₂) (a₁ + a₂))
    {codecs : Codecs} {fs : FS} {st : StaticTable} (hb : FlushBuilds codecs s now₁ now₂ db fs st) :
    StaticHolds R s st (retainedRows s now₁ now₂ hS hM) := by
  obtain ⟨cleanup, old, fs₁, fs₂, hcomb, -⟩ := hb
  have hnew := combineSortedMemStaticIntervals_ok (pairwise_keptKeys (keys_pairwise_lt hm.sorted))
    (pairwise_keptKeys (keys_pairwise_lt hs.sorted)) hcomb
  refine ⟨hnew.sorted, fun I iv hfind => ?_, fun I => ?_⟩
  · obtain ⟨job, rfl, hfits, hres⟩ := hnew.result I iv hfind
    obtain ⟨hstart, hstop, hsorted, hfit, -⟩ := hres.holds hs hm hR hfits
    exact ⟨hstart, hstop, hsorted, hfit⟩
  · unfold rowsAt
    cases hfind : find? I st.intervals with
    | none =>
      -- no job has `I`, so neither table keeps it
      have hout : I ∉ keptKeys s now₂ (db.memTable.intervals.map (·.1)) ++
          keptKeys s now₁ (db.staticTable.intervals.map (·.1)) :=
        fun h => hnew.covers I h hfind
      rw [List.mem_append, not_or] at hout
      rw [restrict_retainedRows hs hm, if_neg hout.2, if_neg hout.1]
      exact tracks_nil R
    | some iv =>
      obtain ⟨job, rfl, hfits, hres⟩ := hnew.result I iv hfind
      exact (hres.holds hs hm hR hfits).2.2.2.2

end Flush

/-! ## Runs -/

/-- The states the inserter goroutine reaches from a new database, with the histories its two
tables hold. A batch of inserts appends the rows it keeps to the memtable's history. A flush
that builds a static table moves what it keeps of both histories to the static table's; when it
succeeds it starts an empty memtable, and when it then fails writing the metadata (on disk) the
memtable keeps its rows and its history. A flush that fails before the swap leaves the state as
it was. -/
inductive Reach (fmtG : F64 → String) (codecs : Codecs) (s : Schema) :
    DB → List LogicalRow → List LogicalRow → Prop
  | init : Reach fmtG codecs s (newDB s) [] []
  | insert {db : DB} {hS hM : List LogicalRow} (now : ℤ) (rows : List UnpackedRow) :
      Reach fmtG codecs s db hS hM →
      Reach fmtG codecs s (db.insertRows fmtG s now rows).2 hS (hM ++ db.insertedRows fmtG s now rows)
  | flushed {db : DB} {hS hM : List LogicalRow} {now₁ now₂ : ℤ} {fs : FS} {st : StaticTable} :
      Reach fmtG codecs s db hS hM → FlushBuilds codecs s now₁ now₂ db fs st →
      Reach fmtG codecs s { db with staticTable := st, memTable := newMemTable s }
        (retainedRows s now₁ now₂ hS hM) []
  | metadataFailed {db : DB} {hS hM : List LogicalRow} {now₁ now₂ : ℤ} {fs : FS}
      {st : StaticTable} :
      Reach fmtG codecs s db hS hM → FlushBuilds codecs s now₁ now₂ db fs st →
      s.diskBacked = true →
      Reach fmtG codecs s { db with staticTable := st } (retainedRows s now₁ now₂ hS hM) hM

section Reach

variable {fmtG : F64 → String} {codecs : Codecs} {s : Schema}

/-- Whatever a flush returns, the state it leaves is reachable; when it succeeds, the static
table's history is what it kept of both, and the memtable's is empty. -/
theorem Reach.flush {db : DB} {hS hM : List LogicalRow} (h : Reach fmtG codecs s db hS hM)
    {now₁ now₂ : ℤ} {fs fs' : FS} {r : Go Unit} {db' : DB}
    (hf : DB.flush codecs s now₁ now₂ db fs = (r, db', fs')) :
    ∃ hS' hM', Reach fmtG codecs s db' hS' hM' ∧
      (r = .ok () → hS' = retainedRows s now₁ now₂ hS hM ∧ hM' = []) := by
  rcases flush_cases hf with ⟨rfl, hr⟩ | ⟨st, hb, rfl, rfl⟩ | ⟨st, hb, hdisk, rfl, hr⟩
  · -- it failed before the swap
    refine ⟨hS, hM, h, fun hok => ?_⟩
    subst hok
    rcases hr with ⟨e, he | he⟩ | ⟨p, hp⟩
    · cases he
    · cases he
    · cases hp
  · exact ⟨_, _, h.flushed hb, fun _ => ⟨rfl, rfl⟩⟩
  · refine ⟨_, _, h.metadataFailed hb hdisk, fun hok => ?_⟩
    subst hok
    rcases hr with ⟨e, he⟩ | ⟨p, hp⟩
    · cases he
    · cases hp

theorem staticHolds_newStaticTable (R : MetricWithCount → Aggregate → Prop) (s : Schema) :
    StaticHolds R s (newStaticTable s) [] :=
  ⟨sorted_nil, (fun _ _ h => by cases h), fun _ => tracks_nil R⟩

theorem memHolds_newMemTable (R : MetricWithCount → Aggregate → Prop) (s : Schema) :
    MemHolds R s (newMemTable s) [] :=
  ⟨sorted_nil, (fun _ _ h => by cases h), fun _ => tracks_nil R⟩

variable {R : MetricWithCount → Aggregate → Prop}
  (hR : ∀ v₁ v₂ a₁ a₂, R v₁ a₁ → R v₂ a₂ → R (combineValues s v₁ v₂) (a₁ + a₂))
  (hRnew : ∀ v : MetricWithCount, v.metric.length = s.layout.metricWidth → R v (aggregateOf s v))
include hR hRnew

/-- In every reachable state the static table and the memtable hold their histories. -/
theorem Reach.holds {db : DB} {hS hM : List LogicalRow} (h : Reach fmtG codecs s db hS hM) :
    StaticHolds R s db.staticTable hS ∧ MemHolds R s db.memTable hM := by
  induction h with
  | init => exact ⟨staticHolds_newStaticTable R s, memHolds_newMemTable R s⟩
  | insert now rows _ ih =>
    obtain ⟨hs, hm⟩ := ih
    refine ⟨?_, MemHolds.insertRows hR hRnew hm rows⟩
    rw [DB.staticTable_insertRows]
    exact hs
  | flushed _ hb ih => exact ⟨StaticHolds.flush ih.1 ih.2 hR hb, memHolds_newMemTable R s⟩
  | metadataFailed _ hb _ ih => exact ⟨StaticHolds.flush ih.1 ih.2 hR hb, ih.2⟩

end Reach

end Gumshoe
