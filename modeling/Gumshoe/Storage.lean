import Gumshoe.Run

/-!
# The storage contract

On a schema whose metric columns are integers, take `R = Represents s` in `Reach.holds`: in
every reachable state the static table stores, under each interval start `I` and dimension
bytes `k`, a row exactly when the static table's history has rows under `(I, k)`, and that row
has their total count and, in each metric cell, their total modulo the cell's width
(`Reach.staticRows_represent`). Each interval's rows are sorted by their dimension bytes.

Read back in the column's own type, a stored metric is therefore the exact sum wrapped into that
type, which is the exact sum only when the type can hold it (`Reach.storedMetric_wrapInt`):
collapsing adds in the column's width, in the memtable and again when a flush merges a memtable
interval into a static one. `collapse_wraps_uint8` is a run where it wraps.
-/

namespace Gumshoe

open SortedMap

/-- The row the static table stores under interval start `I` and dimension bytes `k`. -/
def StaticTable.storedRow (s : Schema) (st : StaticTable) (I : ℤ) (k : List UInt8) :
    Option MetricWithCount :=
  (find? I st.intervals).bind fun iv => find? k (iv.rows s)

theorem find?_rowsAt_rows (s : Schema) (st : StaticTable) (I : ℤ) (k : List UInt8) :
    find? k (rowsAt (Interval.rows s) st.intervals I) = st.storedRow s I k := by
  unfold rowsAt StaticTable.storedRow
  cases find? I st.intervals <;> rfl

/-- A static table that holds a history stores under `(I, k)` a row related to the history's
total there, and nothing when the history has no row there. -/
theorem StaticHolds.storedRow_rel {R : MetricWithCount → Aggregate → Prop} {s : Schema}
    {st : StaticTable} {hist : List LogicalRow} (hs : StaticHolds R s st hist) (I : ℤ)
    (k : List UInt8) : Option.Rel R (st.storedRow s I k) (total (I, k) hist) := by
  have ht := hs.tracks I k
  rw [total_restrict, find?_rowsAt_rows] at ht
  exact ht

/-- The JSON row `{"at": 0, "code": 1, "clicks": 200}`, counted once. -/
def clicks200 : UnpackedRow :=
  ⟨⟨[("at", .float64 ⟨0⟩), ("code", .float64 ⟨0x3FF0000000000000⟩),
    ("clicks", .float64 ⟨0x4069000000000000⟩)], by decide⟩, 1⟩

/-- An empty directory on which no call fails. -/
def emptyDir : FS := ⟨fun _ => none, fun _ => none, 0⟩

/-- Codecs that write nothing; a database that is not disk-backed never calls them. -/
def noCodecs : Codecs := ⟨fun _ => [], fun _ => []⟩

/-- Two inserts of `clicks200` into a new database on `uint8Schema`, then a flush. -/
def clicksFlush : Go Unit × DB × FS :=
  DB.flush noCodecs uint8Schema 0 0
    ((newDB uint8Schema).insertRows (fun _ => "") uint8Schema 0 [clicks200, clicks200]).2 emptyDir

/-- The flush of `clicksFlush` succeeds and stores one row under `[0, 1]`, with count 2 and the
byte `144`; the kernel evaluates both at once. -/
theorem clicksFlush_stores :
    clicksFlush.1 = .ok () ∧
      clicksFlush.2.1.staticTable.storedRow uint8Schema 0 [0, 1] = some ⟨2, [144]⟩ := by
  decide +kernel

/-- The run of `clicksFlush`: two inserts, then a flush that succeeds and moves both rows to the
static table. -/
theorem reach_clicksFlush :
    Reach (fun _ => "") noCodecs uint8Schema clicksFlush.2.1
      (retainedRows uint8Schema 0 0 []
        ([] ++ (newDB uint8Schema).insertedRows (fun _ => "") uint8Schema 0
          [clicks200, clicks200])) [] := by
  have hf : clicksFlush = (.ok (), clicksFlush.2.1, clicksFlush.2.2) :=
    Prod.ext clicksFlush_stores.1 Prod.mk.eta.symm
  obtain ⟨hS, hM, h, hok⟩ := Reach.flush
    (Reach.insert 0 [clicks200, clicks200] Reach.init : Reach (fun _ => "") noCodecs uint8Schema _ [] _)
    hf
  obtain ⟨rfl, rfl⟩ := hok rfl
  exact h

section Represents

variable {fmtG : F64 → String} {codecs : Codecs} {s : Schema} {db : DB}
  {hS hM : List LogicalRow}

/-- On an integer schema both tables represent the exact aggregates of their histories. -/
theorem Reach.represents (hint : s.IntegerMetrics) (h : Reach fmtG codecs s db hS hM) :
    StaticHolds (Represents s) s db.staticTable hS ∧ MemHolds (Represents s) s db.memTable hM :=
  h.holds (fun _ _ _ _ h₁ h₂ => h₁.combineValues hint h₂) (fun _ hv => represents_aggregateOf hv)

/-- The storage contract: each static interval's rows are sorted by their dimension bytes, and
under each interval start and dimension bytes the static table stores a row exactly when its
history has rows there, with their total count and, cell by cell, their total modulo the cell's
width. -/
theorem Reach.staticRows_represent (hint : s.IntegerMetrics)
    (h : Reach fmtG codecs s db hS hM) :
    (∀ I iv, find? I db.staticTable.intervals = some iv → Sorted (iv.rows s)) ∧
      ∀ I k, Option.Rel (Represents s) (db.staticTable.storedRow s I k) (total (I, k) hS) := by
  have hs := (h.represents hint).1
  exact ⟨fun I iv hiv => (hs.interval I iv hiv).2.2.1, hs.storedRow_rel⟩

theorem staticRows_represent_clicks :
    (∀ I iv, find? I clicksFlush.2.1.staticTable.intervals = some iv →
        Sorted (iv.rows uint8Schema)) ∧
      ∀ I k, Option.Rel (Represents uint8Schema)
        (clicksFlush.2.1.staticTable.storedRow uint8Schema I k)
        (total (I, k) (retainedRows uint8Schema 0 0 []
          ([] ++ (newDB uint8Schema).insertedRows (fun _ => "") uint8Schema 0
            [clicks200, clicks200]))) :=
  Reach.staticRows_represent (by decide) reach_clicksFlush

/-- Each stored metric, read back in its column's type, is the exact sum of the values inserted
under its key wrapped into that type; so it is the exact sum when the type can hold the sum. -/
theorem Reach.storedMetric_wrapInt (hint : s.IntegerMetrics) (h : Reach fmtG codecs s db hS hM)
    {I : ℤ} {k : List UInt8} {v : MetricWithCount} (hv : db.staticTable.storedRow s I k = some v) :
    ∃ a, total (I, k) hS = some a ∧ v.count = a.1 ∧
      ∀ j (hj : j < s.metricColumns.length),
        (numericCellValue v.metric (s.layout.metricOffsets.getD j 0)
            s.metricColumns[j].type).toInt? = some (wrapInt s.metricColumns[j].type (a.2 j)) ∧
          (Representable s.metricColumns[j].type (a.2 j) →
            (numericCellValue v.metric (s.layout.metricOffsets.getD j 0)
              s.metricColumns[j].type).toInt? = some (a.2 j)) := by
  have hrel := (h.represents hint).1.storedRow_rel I k
  rw [hv] at hrel
  obtain ⟨a, htotal, hrep⟩ := rel_some_left hrel
  refine ⟨a, htotal, hrep.count_eq, fun j hj => ⟨toInt?_metricCell hrep hint hj, fun hfit => ?_⟩⟩
  rw [toInt?_metricCell hrep hint hj, wrapInt_of_representable hfit]

theorem storedMetric_wrapInt_clicks :
    ∃ a, total (0, [0, 1]) (retainedRows uint8Schema 0 0 []
        ([] ++ (newDB uint8Schema).insertedRows (fun _ => "") uint8Schema 0
          [clicks200, clicks200])) = some a ∧ 2 = a.1 ∧
      ∀ j (hj : j < uint8Schema.metricColumns.length),
        (numericCellValue [144] (uint8Schema.layout.metricOffsets.getD j 0)
            uint8Schema.metricColumns[j].type).toInt? =
          some (wrapInt uint8Schema.metricColumns[j].type (a.2 j)) ∧
        (Representable uint8Schema.metricColumns[j].type (a.2 j) →
          (numericCellValue [144] (uint8Schema.layout.metricOffsets.getD j 0)
            uint8Schema.metricColumns[j].type).toInt? = some (a.2 j)) :=
  Reach.storedMetric_wrapInt (by decide) reach_clicksFlush clicksFlush_stores.2

end Represents

/-- Two inserts of `200` clicks under one key of `uint8Schema`, then a flush: both rows are
accepted with the value `200`, and the static table stores one row that reads `144`, the exact
sum `400` modulo `256`. -/
theorem collapse_wraps_uint8 :
    ((newDB uint8Schema).insertRows (fun _ => "") uint8Schema 0 [clicks200, clicks200]).1 = .ok () ∧
      ((newDB uint8Schema).insertedRows (fun _ => "") uint8Schema 0
          [clicks200, clicks200]).map (fun r => r.2.2 0) = [200, 200] ∧
      clicksFlush.1 = .ok () ∧
      (clicksFlush.2.1.staticTable.storedRow uint8Schema 0 [0, 1]).map
          (fun v => (v.count, (numericCellValue v.metric 0 .uint8).toInt?)) = some (2, some 144) :=
  ⟨rfl, rfl, clicksFlush_stores.1, by rw [clicksFlush_stores.2]; rfl⟩

end Gumshoe
