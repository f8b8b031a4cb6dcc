import Gumshoe.MemTable
import Gumshoe.Lib.FaultyFS
import Gumshoe.Lib.GoFmt

/-!
# Intervals and their segments

`interval.go`. An `Interval` is the static data of one time bucket: its rows, `RowSize` bytes
each, split over segments of at most `SegmentSize` bytes. A disk-backed interval keeps each
segment in a file named by the interval's start, its generation and the segment's index
(`Interval.segmentFilename`); an interval in memory keeps buffers.

A `writeOnlyInterval` is filled one row at a time by `appendRow`, which closes the current
segment when the next row would not fit and opens a fresh one; `freeze` closes the last segment
and maps every segment read-only. A file is never written again once it is mapped, so a
segment's bytes are modelled as the file's contents when it was frozen.

`WriteMemInterval` writes a memtable interval's tree in key order, at generation 0;
`WriteCombinedInterval` merges the tree with a static interval's rows, read by the interval
cursor, at the next generation. Its loop is the merge of two sorted runs: the lemma
`combineRows_eq` says it appends exactly the rows of `SortedMap.mergeWith`.

The main results:

* `Segment.rows_encodeRows` — the cursor reads back the rows written into a segment;
* `Interval.segmentFilename_inj` — a segment file's name determines the interval's start second,
  its generation and the segment's index;
* `WriterState` — what the segments of a writer hold so far: kept by each step of `appendRow`
  (`appendRow_spec`, `appendRows_spec`) and read back by `freeze` (`freeze_spec`);
* `Schema.writeMemInterval_spec` and `Schema.writeCombinedInterval_spec` — the written interval
  holds the tree's entries, respectively the merge of the tree with the static rows
  (`Interval.Written`), and the writers touch no file but the new interval's segments.
-/

namespace Gumshoe

open Bytes

/-- A row as the interval cursor reads it and as the memtable's tree stores it: the dimension
bytes, with the count and the metric bytes. -/
abbrev Row := List UInt8 × MetricWithCount

/-- `Segment`: the bytes of one segment. -/
structure Segment where
  bytes : List UInt8
deriving DecidableEq

/-- `Interval`; `stop` is Go's `End`, exclusive. -/
structure Interval where
  generation : Nat
  start : ℤ
  stop : ℤ
  segments : List Segment
  numSegments : Nat
  numRows : Nat
deriving DecidableEq

/-- `Interval.SegmentFilename`:
`interval.<start seconds>.generation<%04d>.segment<%04d>.dat` in the database directory. -/
def Interval.segmentFilename (s : Schema) (iv : Interval) (segmentIndex : Nat) : String :=
  GoFmt.joinPath s.dir ("interval." ++ GoFmt.decimal (GoTime.toUnix iv.start) ++ ".generation" ++
    GoFmt.zeroPad 4 iv.generation ++ ".segment" ++ GoFmt.zeroPad 4 segmentIndex ++ ".dat")

/-! ## The interval cursor -/

/-- The row `intervalCursor.Next` reads at byte `offset` of a segment: the dimension bytes
`[DimensionStartOffset, MetricStartOffset)`, the `uint32` count at the row's start, and the
metric bytes `[MetricStartOffset, RowSize)`. -/
def rowAt (s : Schema) (bytes : List UInt8) (offset : Nat) : Row :=
  (readAt bytes (offset + s.layout.dimensionStartOffset) s.layout.dimensionWidth,
    ⟨decodeLE (readAt bytes offset countColumnWidth),
      readAt bytes (offset + s.layout.metricStartOffset) s.layout.metricWidth⟩)

/-- `intervalCursor.Next` within one segment from byte `offset` on, while `Offset < len(Bytes)`;
`fuel` bounds the number of rows. -/
def segmentRows (s : Schema) (bytes : List UInt8) : Nat → Nat → List Row
  | 0, _ => []
  | fuel + 1, offset =>
    if offset < bytes.length then
      rowAt s bytes offset :: segmentRows s bytes fuel (offset + s.layout.rowSize)
    else []

/-- The rows of a segment, in order. A row takes at least one byte, so the segment's length is
enough fuel. -/
def Segment.rows (s : Schema) (seg : Segment) : List Row :=
  segmentRows s seg.bytes seg.bytes.length 0

/-- The rows the interval cursor enumerates: those of each segment in turn. -/
def Interval.rows (s : Schema) (iv : Interval) : List Row :=
  iv.segments.flatMap (Segment.rows s)

/-- The bytes `writeKeyValCount` writes for a row: the count, the dimension bytes, the metric
bytes. -/
def encodeRow (r : Row) : List UInt8 :=
  encodeLE countColumnWidth r.2.count ++ r.1 ++ r.2.metric

/-- The bytes of rows written one after another. -/
def encodeRows (rows : List Row) : List UInt8 := rows.flatMap encodeRow

/-! ### Reading back what was written -/

/-- A row `writeKeyValCount` writes and the cursor reads back: dimension and metric bytes of the
schema's widths, and a count that fits the count column. -/
structure RowFits (s : Schema) (r : Row) : Prop where
  key_length : r.1.length = s.layout.dimensionWidth
  metric_length : r.2.metric.length = s.layout.metricWidth
  count_lt : r.2.count < 2 ^ 32

theorem length_encodeRow {s : Schema} {r : Row} (h : RowFits s r) :
    (encodeRow r).length = s.layout.rowSize := by
  rw [Schema.rowSize_eq, Schema.metricStartOffset_eq]
  simp only [encodeRow, List.length_append, length_encodeLE, h.key_length, h.metric_length]
  rfl

/-- The cursor reads a written row back from wherever it stands in a segment. -/
theorem rowAt_append {s : Schema} {r : Row} (h : RowFits s r) (pre post : List UInt8) :
    rowAt s (pre ++ encodeRow r ++ post) pre.length = r := by
  obtain ⟨key, count, metric⟩ := r
  have hc : (encodeLE countColumnWidth count).length = countColumnWidth := length_encodeLE _ _
  have hk : key.length = s.layout.dimensionWidth := h.key_length
  have hm : metric.length = s.layout.metricWidth := h.metric_length
  -- the row's three fields, each read at its own offset
  have hcount := readAt_append_self pre (encodeLE countColumnWidth count) (key ++ metric ++ post)
  have hkey := readAt_append_self (pre ++ encodeLE countColumnWidth count) key (metric ++ post)
  have hmetric := readAt_append_self (pre ++ encodeLE countColumnWidth count ++ key) metric post
  simp only [List.length_append, hc, hk, hm, List.append_assoc] at hcount hkey hmetric
  simp only [rowAt, encodeRow, List.append_assoc, Schema.layout, countColumnWidth,
    Nat.add_assoc] at hcount hkey hmetric ⊢
  rw [hcount, hkey, hmetric, decodeLE_encodeLE_of_lt (by simpa using h.count_lt)]

/-- The cursor reads a run of written rows back, from the offset where the run starts. -/
theorem segmentRows_append {s : Schema} :
    ∀ {rows : List Row} (pre : List UInt8) {fuel : Nat}, (∀ r ∈ rows, RowFits s r) →
      rows.length ≤ fuel → segmentRows s (pre ++ encodeRows rows) fuel pre.length = rows
  | [], pre, fuel, _, _ => by
    cases fuel <;> simp [segmentRows, encodeRows]
  | r :: rows, pre, fuel + 1, hfits, hfuel => by
    have hr := hfits r List.mem_cons_self
    have hlen := length_encodeRow hr
    have hpos : 0 < (encodeRow r).length := by
      simp [encodeRow, countColumnWidth]
    have hbytes : pre ++ encodeRows (r :: rows) = pre ++ encodeRow r ++ encodeRows rows := by
      simp [encodeRows]
    rw [segmentRows, if_pos (by rw [hbytes]; simp; omega), hbytes, rowAt_append hr, ← hlen,
      ← List.length_append]
    rw [segmentRows_append (pre ++ encodeRow r) (fun r' hr' => hfits r' (List.mem_cons_of_mem _ hr'))
      (by simpa using hfuel)]
  | _ :: _, _, 0, _, hfuel => absurd hfuel (by simp)

/-- A segment holding written rows reads back as those rows. -/
theorem Segment.rows_encodeRows {s : Schema} {rows : List Row} (h : ∀ r ∈ rows, RowFits s r) :
    Segment.rows s ⟨encodeRows rows⟩ = rows := by
  have hfuel : rows.length ≤ (encodeRows rows).length := by
    induction rows with
    | nil => simp
    | cons r rows ih =>
      have hr : 0 < (encodeRow r).length := by simp [encodeRow, countColumnWidth]
      simp only [encodeRows, List.flatMap_cons, List.length_append, List.length_cons] at ih ⊢
      have := ih (fun r' hr' => h r' (List.mem_cons_of_mem _ hr'))
      omega
  exact segmentRows_append [] h hfuel

/-! ### Segment file names -/

/-- A segment file name determines the interval's start second, its generation and the segment's
index. -/
theorem Interval.segmentFilename_inj {s : Schema} {iv iv' : Interval} {i j : Nat}
    (h : iv.segmentFilename s i = iv'.segmentFilename s j) :
    GoTime.toUnix iv.start = GoTime.toUnix iv'.start ∧ iv.generation = iv'.generation ∧ i = j := by
  have hl := congrArg String.toList (GoFmt.joinPath_inj h)
  simp only [String.toList_append, List.append_assoc] at hl
  have hdots : ".generation".toList = '.' :: "generation".toList ∧
      ".segment".toList = '.' :: "segment".toList := ⟨rfl, rfl⟩
  -- split at the dot after the start, then at the dot after the generation
  have hl₁ := List.append_cancel_left hl
  rw [hdots.1] at hl₁
  obtain ⟨hstart, hl₂⟩ := GoFmt.append_cons_cancel (GoFmt.dot_not_mem_decimal _)
    (GoFmt.dot_not_mem_decimal _) hl₁
  have hl₃ := List.append_cancel_left hl₂
  rw [hdots.2] at hl₃
  obtain ⟨hgen, hl₄⟩ := GoFmt.append_cons_cancel (GoFmt.dot_not_mem_zeroPad _ _)
    (GoFmt.dot_not_mem_zeroPad _ _) hl₃
  have hindex := List.append_cancel_right (List.append_cancel_left hl₄)
  exact ⟨GoFmt.decimal_inj (String.toList_inj.mp hstart),
    GoFmt.zeroPad_inj (String.toList_inj.mp hgen), GoFmt.zeroPad_inj (String.toList_inj.mp hindex)⟩

theorem Interval.segmentFilename_ne {s : Schema} {iv : Interval} {i j : Nat} (h : i ≠ j) :
    iv.segmentFilename s i ≠ iv.segmentFilename s j := fun he =>
  h (Interval.segmentFilename_inj he).2.2

/-! ## The write-only interval -/

/-- `CurSegment`, an `io.Writer`: an open segment file, or a buffer. -/
inductive SegmentWriter
  | file (name : String)
  | buffer (bytes : List UInt8)
deriving DecidableEq

/-- The dynamic type of an `io.Writer` value, as a failed type assertion names it. -/
def SegmentWriter.typeName : Option SegmentWriter → String
  | none => "nil"
  | some (.file _) => "*os.File"
  | some (.buffer _) => "*bytes.Buffer"

/-- The panic of the type assertion `w.(want)` on a writer of another type. -/
def typeAssertionPanic (w : Option SegmentWriter) (want : String) : String :=
  "interface conversion: io.Writer is " ++ SegmentWriter.typeName w ++ ", not " ++ want

/-- `writeOnlyInterval`. -/
structure WriteOnlyInterval where
  interval : Interval
  diskBacked : Bool
  curSegment : Option SegmentWriter
  curSegmentSize : Nat
  buffers : List (List UInt8)

/-- `newWriteOnlyInterval(diskBacked, generation, start, end)`. -/
def newWriteOnlyInterval (diskBacked : Bool) (generation : Nat) (start stop : ℤ) :
    WriteOnlyInterval :=
  ⟨⟨generation, start, stop, [], 0, 0⟩, diskBacked, none, 0, []⟩

/-- `CurSegment.Write(bytes)`: appended to the file, or to the buffer. -/
def SegmentWriter.write : SegmentWriter → List UInt8 → GoState FS SegmentWriter
  | .file name, bytes => do
    FS.write name bytes
    pure (.file name)
  | .buffer b, bytes => pure (.buffer (b ++ bytes))

namespace WriteOnlyInterval

variable (s : Schema)

/-- `writeKeyValCount(key, val, count)`. -/
def writeKeyValCount (iv : WriteOnlyInterval) (key val : List UInt8) (count : UInt32) :
    GoState FS WriteOnlyInterval :=
  match iv.curSegment with
  | none => GoState.lift (.panic nilDereference)
  | some w => do
    let w ← w.write (encodeLE countColumnWidth count.toNat)
    let w ← w.write key
    let w ← w.write val
    pure { iv with
      curSegment := some w
      interval := { iv.interval with numRows := iv.interval.numRows + 1 } }

/-- `openFreshSegment`; the deferred `NumSegments++` runs also when the file cannot be
created, but then the caller gives the interval up. -/
def openFreshSegment (iv : WriteOnlyInterval) : GoState FS WriteOnlyInterval :=
  let name := iv.interval.segmentFilename s iv.interval.numSegments
  let iv' := { iv with interval := { iv.interval with numSegments := iv.interval.numSegments + 1 } }
  if iv.diskBacked then do
    FS.create name
    pure { iv' with curSegment := some (.file name) }
  else pure { iv' with curSegment := some (.buffer []) }

/-- `closeCurrentSegment`: close the file, or keep the buffer. -/
def closeCurrentSegment (iv : WriteOnlyInterval) : GoState FS WriteOnlyInterval :=
  if iv.diskBacked then
    match iv.curSegment with
    | some (.file name) => do
      FS.close name
      pure iv
    | w => GoState.lift (.panic (typeAssertionPanic w "*os.File"))
  else
    match iv.curSegment with
    | some (.buffer b) => pure { iv with buffers := iv.buffers ++ [b] }
    | w => GoState.lift (.panic (typeAssertionPanic w "*bytes.Buffer"))

/-- The panic of `appendRow` on a count that does not fit the count column. -/
def countOverflow : String :=
  "count greater than MaxUint32 is unrepresentable with uint32 for column count"

/-- The first step of `appendRow`: when the row would not fit the current segment, close it. -/
def closeIfFull (iv : WriteOnlyInterval) : GoState FS WriteOnlyInterval :=
  if iv.curSegmentSize + s.layout.rowSize > s.segmentSize then do
    let iv ← iv.closeCurrentSegment
    pure { iv with curSegmentSize := 0, curSegment := none }
  else pure iv

/-- The second step of `appendRow`: when no segment is open, open a fresh one. -/
def openIfNone (iv : WriteOnlyInterval) : GoState FS WriteOnlyInterval :=
  if iv.curSegment.isNone then iv.openFreshSegment s else pure iv

/-- `appendRow(s, dimensions, metrics, count)`. -/
def appendRow (iv : WriteOnlyInterval) (dimensions metrics : List UInt8) (count : Nat) :
    GoState FS WriteOnlyInterval := do
  let iv ← iv.closeIfFull s
  let iv ← iv.openIfNone s
  if count > 2 ^ 32 - 1 then GoState.lift (.panic countOverflow)
  else
    let iv := { iv with curSegmentSize := iv.curSegmentSize + s.layout.rowSize }
    iv.writeKeyValCount dimensions metrics (UInt32.ofNat count)

/-- `appendRow` for each row in turn. -/
def appendRows : WriteOnlyInterval → List Row → GoState FS WriteOnlyInterval
  | iv, [] => pure iv
  | iv, (key, v) :: rows => do
    let iv ← iv.appendRow s key v.metric v.count
    appendRows iv rows

/-- The segment `i` of `freeze`'s loop: the mapped file, or the buffer. -/
def loadSegment (iv : WriteOnlyInterval) (i : Nat) : GoState FS Segment :=
  if iv.diskBacked then do
    let bytes ← FS.readAll (iv.interval.segmentFilename s i)
    pure ⟨bytes⟩
  else
    match iv.buffers[i]? with
    | some b => pure ⟨b⟩
    | none => GoState.lift (.panic (indexOutOfRange i iv.buffers.length))

/-- `freeze`'s loop over the segment indices. -/
def loadSegments (iv : WriteOnlyInterval) : List Nat → GoState FS (List Segment)
  | [] => pure []
  | i :: is => do
    let seg ← iv.loadSegment s i
    let segs ← iv.loadSegments is
    pure (seg :: segs)

/-- `freeze(s)`. -/
def freeze (iv : WriteOnlyInterval) : GoState FS Interval := do
  let iv ← iv.closeCurrentSegment
  let segments ← iv.loadSegments s (List.range iv.interval.numSegments)
  pure { iv.interval with segments := segments }

end WriteOnlyInterval

/-! ## What a writer holds -/

/-- The rows a writer has written: those of its closed segments, then those of the open one. -/
def written (closed : List (List Row)) (cur : Option (List Row)) : List Row :=
  closed.flatten ++ cur.getD []

/-- `iv'` is the same write-only interval as `iv` at a later point: same storage, start, end and
generation. -/
structure WriteOnlyInterval.Keeps (iv iv' : WriteOnlyInterval) : Prop where
  diskBacked_eq : iv'.diskBacked = iv.diskBacked
  generation_eq : iv'.interval.generation = iv.interval.generation
  start_eq : iv'.interval.start = iv.interval.start
  stop_eq : iv'.interval.stop = iv.interval.stop

theorem WriteOnlyInterval.Keeps.refl (iv : WriteOnlyInterval) : iv.Keeps iv := ⟨rfl, rfl, rfl, rfl⟩

theorem WriteOnlyInterval.Keeps.trans {iv iv' iv'' : WriteOnlyInterval} (h : iv.Keeps iv')
    (h' : iv'.Keeps iv'') : iv.Keeps iv'' :=
  ⟨h'.diskBacked_eq.trans h.diskBacked_eq, h'.generation_eq.trans h.generation_eq,
    h'.start_eq.trans h.start_eq, h'.stop_eq.trans h.stop_eq⟩

/-- The writer `iv`, whose segment files are named `name i`, has closed segments holding the
blocks of rows `closed`, and, when `cur` is `some rows`, an open segment holding `rows`. The open
segment is the file with the next index, or a buffer; closed buffers are kept in order; every row
written fits the row layout. -/
structure WriterState (s : Schema) (name : Nat → String) (iv : WriteOnlyInterval) (fs : FS)
    (closed : List (List Row)) (cur : Option (List Row)) : Prop where
  name_eq : ∀ i, iv.interval.segmentFilename s i = name i
  numSegments_eq : iv.interval.numSegments = closed.length + cur.toList.length
  numRows_eq : iv.interval.numRows = (written closed cur).length
  curSegment_eq : iv.curSegment = cur.map fun rows =>
    if iv.diskBacked then .file (name closed.length) else .buffer (encodeRows rows)
  buffers_eq : iv.diskBacked = false → iv.buffers = closed.map encodeRows
  files_eq : iv.diskBacked = true → ∀ i (hi : i < closed.length),
    fs.files (name i) = some (encodeRows closed[i])
  cur_file : iv.diskBacked = true → ∀ rows ∈ cur, fs.files (name closed.length) = some (encodeRows rows)
  fits : ∀ r ∈ written closed cur, RowFits s r

/-- A fresh write-only interval has written nothing. -/
theorem writerState_new (s : Schema) (diskBacked : Bool) (generation : Nat) (start stop : ℤ)
    (fs : FS) :
    WriterState s ((newWriteOnlyInterval diskBacked generation start stop).interval.segmentFilename s)
      (newWriteOnlyInterval diskBacked generation start stop) fs [] none :=
  ⟨fun _ => rfl, rfl, rfl, rfl, fun _ => rfl, fun _ i hi => absurd hi (Nat.not_lt_zero i),
    fun _ _ h => (Option.not_mem_none _ h).elim, fun r hr => by simp [written] at hr⟩

/-- The names a writer's segment files take. -/
def SegmentFile (name : Nat → String) (n : String) : Prop := ∃ i, n = name i

/-- Distinct segments have distinct files. -/
theorem WriterState.name_ne {s : Schema} {name : Nat → String} {iv : WriteOnlyInterval} {fs : FS}
    {closed : List (List Row)} {cur : Option (List Row)} (hw : WriterState s name iv fs closed cur)
    {i j : Nat} (hij : i ≠ j) : name i ≠ name j := by
  rw [← hw.name_eq, ← hw.name_eq]
  exact Interval.segmentFilename_ne hij

namespace WriteOnlyInterval

variable {s : Schema} {name : Nat → String} {iv iv' : WriteOnlyInterval} {fs fs' : FS}

/-- Closing the open segment keeps its rows, as the last closed block. -/
theorem closeCurrentSegment_spec {closed : List (List Row)} {rows : List Row}
    (hw : WriterState s name iv fs closed (some rows))
    (h : iv.closeCurrentSegment fs = (.ok iv', fs')) :
    WriterState s name { iv' with curSegmentSize := 0, curSegment := none } fs' (closed ++ [rows])
        none ∧
      iv.Keeps iv' ∧ FS.Touches (SegmentFile name) fs fs' := by
  have hcur := hw.curSegment_eq
  unfold closeCurrentSegment at h
  cases hd : iv.diskBacked with
  | true =>
    simp only [hd, if_true, Option.map_some] at hcur h
    rw [hcur] at h
    obtain ⟨u, fs₁, hclose, hpure⟩ := GoState.bind_eq_ok.mp h
    cases hpure
    have hfiles := FS.close_of_ok hclose
    refine ⟨⟨hw.name_eq, ?_, ?_, rfl, fun hf => absurd hf (by simp [hd]), fun _ i hi => ?_,
      fun _ _ h => (Option.not_mem_none _ h).elim,
      fun r hr => hw.fits r (by simpa [written] using hr)⟩, Keeps.refl _, FS.Touches.of_files hfiles⟩
    · simp [hw.numSegments_eq]
    · simp [hw.numRows_eq, written]
    · rw [hfiles]
      rcases Nat.lt_succ_iff_lt_or_eq.mp (by simpa using hi) with hi | rfl
      · rw [List.getElem_append_left hi]
        exact hw.files_eq hd i hi
      · simpa using hw.cur_file hd rows rfl
  | false =>
    simp only [hd, Bool.false_eq_true, if_false, Option.map_some] at hcur h
    rw [hcur] at h
    cases h
    refine ⟨⟨hw.name_eq, ?_, ?_, rfl, fun _ => ?_, fun hf => absurd hf (by simp),
      fun hf => absurd hf (by simp), fun r hr => hw.fits r (by simpa [written] using hr)⟩,
      ⟨hd.symm, rfl, rfl, rfl⟩, FS.Touches.refl _ _⟩
    · simp [hw.numSegments_eq]
    · simp [hw.numRows_eq, written]
    · simp [hw.buffers_eq hd]

/-- Opening a fresh segment adds an empty open block. -/
theorem openFreshSegment_spec {closed : List (List Row)}
    (hw : WriterState s name iv fs closed none) (h : iv.openFreshSegment s fs = (.ok iv', fs')) :
    WriterState s name iv' fs' closed (some []) ∧ iv.Keeps iv' ∧
      FS.Touches (SegmentFile name) fs fs' := by
  have hn : iv.interval.numSegments = closed.length := by simpa using hw.numSegments_eq
  unfold openFreshSegment at h
  cases hd : iv.diskBacked with
  | true =>
    simp only [hd, if_true, hw.name_eq, hn] at h
    obtain ⟨u, fs₁, hcreate, hpure⟩ := GoState.bind_eq_ok.mp h
    cases hpure
    have hnew := FS.create_of_ok hcreate
    have hsame := FS.create_sameExcept (name closed.length) fs
    rw [hcreate] at hsame
    refine ⟨⟨hw.name_eq, by simp, by simpa [written] using hw.numRows_eq, by simp,
      fun hf => absurd hf (by simp), fun _ i hi => ?_, fun _ rows hrows => ?_,
      fun r hr => hw.fits r (by simpa [written] using hr)⟩,
      ⟨hd.symm, rfl, rfl, rfl⟩, hsame.touches ⟨_, rfl⟩⟩
    · rw [hsame _ (hw.name_ne (by omega))]
      exact hw.files_eq hd i hi
    · cases hrows
      simpa [encodeRows] using hnew
  | false =>
    simp only [hd, Bool.false_eq_true, if_false] at h
    cases h
    exact ⟨⟨hw.name_eq, by simp [hn], by simpa [written] using hw.numRows_eq, by simp [encodeRows],
      fun _ => hw.buffers_eq hd, fun hf => absurd hf (by simp), fun hf => absurd hf (by simp),
      fun r hr => hw.fits r (by simpa [written] using hr)⟩, ⟨hd.symm, rfl, rfl, rfl⟩,
      FS.Touches.refl _ _⟩

end WriteOnlyInterval

/-! ### Writes -/

/-- The bytes a writer has written so far: the file's contents, or the buffer. -/
def SegmentWriter.Holds (fs : FS) : SegmentWriter → List UInt8 → Prop
  | .file n, bytes => fs.files n = some bytes
  | .buffer b, bytes => b = bytes

/-- The writer after a write: the same file, or the longer buffer. -/
def SegmentWriter.append : SegmentWriter → List UInt8 → SegmentWriter
  | .file n, _ => .file n
  | .buffer b, bytes => .buffer (b ++ bytes)

/-- A write appends to what the writer holds and touches no file but the writer's. -/
theorem SegmentWriter.write_spec {w w' : SegmentWriter} {bytes old : List UInt8}
    (hold : w.Holds fs old) (h : w.write bytes fs = (.ok w', fs')) :
    w' = w.append bytes ∧ w'.Holds fs' (old ++ bytes) ∧
      ∀ n, w ≠ .file n → fs'.files n = fs.files n := by
  cases w with
  | file n =>
    obtain ⟨u, fs₁, hwrite, hpure⟩ := GoState.bind_eq_ok.mp h
    cases hpure
    have hsame := FS.write_sameExcept n bytes fs
    rw [hwrite] at hsame
    refine ⟨rfl, ?_, fun n' hn' => hsame n' (fun he => hn' (he ▸ rfl))⟩
    show fs'.files n = some (old ++ bytes)
    rw [FS.write_of_ok hwrite, show fs.files n = some old from hold]
    rfl
  | buffer b =>
    cases h
    exact ⟨rfl, show b ++ bytes = old ++ bytes from hold ▸ rfl, fun _ _ => rfl⟩

section

variable {s : Schema} {name : Nat → String} {iv : WriteOnlyInterval} {fs : FS}

/-- The size of the open segment plays no part in what was written. -/
theorem WriterState.withCurSegmentSize {closed : List (List Row)} {cur : Option (List Row)}
    (hw : WriterState s name iv fs closed cur) (n : Nat) :
    WriterState s name { iv with curSegmentSize := n } fs closed cur :=
  ⟨hw.name_eq, hw.numSegments_eq, hw.numRows_eq, hw.curSegment_eq, hw.buffers_eq, hw.files_eq,
    hw.cur_file, hw.fits⟩

/-- The writer of the open segment holds its rows. -/
theorem WriterState.holds {closed : List (List Row)} {rows : List Row}
    (hw : WriterState s name iv fs closed (some rows)) :
    ∃ w, iv.curSegment = some w ∧ w.Holds fs (encodeRows rows) ∧
      w = if iv.diskBacked then .file (name closed.length) else .buffer (encodeRows rows) := by
  refine ⟨_, hw.curSegment_eq, ?_, rfl⟩
  cases hd : iv.diskBacked with
  | true => exact hw.cur_file hd rows rfl
  | false => rfl

theorem encodeRows_append_singleton (rows : List Row) (r : Row) :
    encodeRows (rows ++ [r]) = encodeRows rows ++ encodeRow r := by
  simp [encodeRows]

theorem written_some_append (closed : List (List Row)) (rows : List Row) (r : Row) :
    written closed (some (rows ++ [r])) = written closed (some rows) ++ [r] := by
  simp [written]

end

namespace WriteOnlyInterval

variable {s : Schema} {name : Nat → String} {iv iv' : WriteOnlyInterval} {fs fs' : FS}

/-- `writeKeyValCount` appends the row to the open segment. -/
theorem writeKeyValCount_spec {closed : List (List Row)} {rows : List Row} {key val : List UInt8}
    {count : UInt32} (hw : WriterState s name iv fs closed (some rows))
    (hfits : RowFits s (key, ⟨count.toNat, val⟩))
    (h : iv.writeKeyValCount key val count fs = (.ok iv', fs')) :
    WriterState s name iv' fs' closed (some (rows ++ [(key, ⟨count.toNat, val⟩)])) ∧ iv.Keeps iv' ∧
      FS.Touches (SegmentFile name) fs fs' := by
  obtain ⟨w, hcur, hold, hw_eq⟩ := hw.holds
  unfold writeKeyValCount at h
  rw [hcur] at h
  -- the three writes: the count, the key, the metrics
  obtain ⟨w₁, fs₁, h₁, h⟩ := GoState.bind_eq_ok.mp h
  obtain ⟨w₂, fs₂, h₂, h⟩ := GoState.bind_eq_ok.mp h
  obtain ⟨w₃, fs₃, h₃, hpure⟩ := GoState.bind_eq_ok.mp h
  cases hpure
  obtain ⟨rfl, hold₁, hframe₁⟩ := SegmentWriter.write_spec hold h₁
  obtain ⟨rfl, hold₂, hframe₂⟩ := SegmentWriter.write_spec hold₁ h₂
  obtain ⟨rfl, hold₃, hframe₃⟩ := SegmentWriter.write_spec hold₂ h₃
  have hbytes : encodeRows rows ++ encodeLE countColumnWidth count.toNat ++ key ++ val =
      encodeRows (rows ++ [(key, ⟨count.toNat, val⟩)]) := by
    simp [encodeRows_append_singleton, encodeRow]
  rw [hbytes] at hold₃
  have hfits' : ∀ r ∈ written closed (some (rows ++ [(key, ⟨count.toNat, val⟩)])), RowFits s r := by
    intro r hr
    rw [written_some_append, List.mem_append, List.mem_singleton] at hr
    rcases hr with hr | rfl
    · exact hw.fits r hr
    · exact hfits
  cases hd : iv.diskBacked with
  | true =>
    rw [hd, if_pos rfl] at hw_eq
    subst hw_eq
    -- the open segment's file is the only file written
    have hframe : ∀ n, n ≠ name closed.length → fs'.files n = fs.files n := fun n hn => by
      have hne : SegmentWriter.file (name closed.length) ≠ .file n := fun he =>
        hn (SegmentWriter.file.inj he).symm
      rw [hframe₃ n hne, hframe₂ n hne, hframe₁ n hne]
    refine ⟨⟨hw.name_eq, by simpa using hw.numSegments_eq,
      by simp [hw.numRows_eq, written, Nat.add_assoc], by simp [SegmentWriter.append],
      fun hf => absurd hf (by simp), fun _ i hi => ?_, fun _ rows' hrows' => ?_, hfits'⟩,
      ⟨hd.symm, rfl, rfl, rfl⟩,
      fun n hn => hframe n (fun he => hn ⟨_, he⟩)⟩
    · rw [hframe _ (hw.name_ne (by omega))]
      exact hw.files_eq hd i hi
    · cases hrows'
      exact hold₃
  | false =>
    rw [hd, if_neg (by simp)] at hw_eq
    subst hw_eq
    -- a buffer: no file is written
    have hframe : fs'.files = fs.files := funext fun n => by
      have hne : SegmentWriter.buffer (encodeRows rows) ≠ .file n := by simp
      rw [hframe₃ n (by simp [SegmentWriter.append]), hframe₂ n (by simp [SegmentWriter.append]),
        hframe₁ n hne]
    refine ⟨⟨hw.name_eq, by simpa using hw.numSegments_eq,
      by simp [hw.numRows_eq, written, Nat.add_assoc], ?_, fun _ => hw.buffers_eq hd,
      fun hf => absurd hf (by simp), fun hf => absurd hf (by simp), hfits'⟩,
      ⟨hd.symm, rfl, rfl, rfl⟩, FS.Touches.of_files hframe⟩
    have hbuf : ((((SegmentWriter.buffer (encodeRows rows)).append
        (encodeLE countColumnWidth count.toNat)).append key).append val) =
        .buffer (encodeRows (rows ++ [(key, ⟨count.toNat, val⟩)])) := by
      simp [SegmentWriter.append, ← hbytes]
    simp [hbuf]

/-! ### `appendRow` -/

/-- Closing a full segment changes nothing that was written. -/
theorem closeIfFull_spec {closed : List (List Row)} {cur : Option (List Row)}
    (hw : WriterState s name iv fs closed cur) (h : iv.closeIfFull s fs = (.ok iv', fs')) :
    ∃ closed' cur', WriterState s name iv' fs' closed' cur' ∧
      written closed' cur' = written closed cur ∧ iv.Keeps iv' ∧
      FS.Touches (SegmentFile name) fs fs' := by
  unfold closeIfFull at h
  split at h
  · obtain ⟨iv₁, fs₁, hclose, hpure⟩ := GoState.bind_eq_ok.mp h
    cases hpure
    cases cur with
    | none =>
      -- no segment is open: the type assertion on the nil writer panics
      have hnone : iv.curSegment = none := by simpa using hw.curSegment_eq
      unfold closeCurrentSegment at hclose
      rw [hnone] at hclose
      split at hclose <;> exact absurd hclose (GoState.lift_ne_ok (by simp))
    | some rows =>
      obtain ⟨hw', hkeep, htouch⟩ := closeCurrentSegment_spec hw hclose
      exact ⟨_, _, hw', by simp [written],
        ⟨hkeep.diskBacked_eq, hkeep.generation_eq, hkeep.start_eq, hkeep.stop_eq⟩, htouch⟩
  · cases h
    exact ⟨closed, cur, hw, rfl, Keeps.refl _, FS.Touches.refl _ _⟩

/-- After `openIfNone` a segment is open. -/
theorem openIfNone_spec {closed : List (List Row)} {cur : Option (List Row)}
    (hw : WriterState s name iv fs closed cur) (h : iv.openIfNone s fs = (.ok iv', fs')) :
    ∃ rows, WriterState s name iv' fs' closed (some rows) ∧
      written closed (some rows) = written closed cur ∧ iv.Keeps iv' ∧
      FS.Touches (SegmentFile name) fs fs' := by
  unfold openIfNone at h
  cases cur with
  | none =>
    have hnone : iv.curSegment = none := by simpa using hw.curSegment_eq
    rw [hnone] at h
    obtain ⟨hw', hkeep, htouch⟩ := openFreshSegment_spec hw h
    exact ⟨[], hw', by simp [written], hkeep, htouch⟩
  | some rows =>
    have hsome : iv.curSegment.isNone = false := by simp [hw.curSegment_eq]
    rw [hsome] at h
    cases h
    exact ⟨rows, hw, rfl, Keeps.refl _, FS.Touches.refl _ _⟩

/-- `appendRow` writes the row after everything written before. -/
theorem appendRow_spec {closed : List (List Row)} {cur : Option (List Row)} {key metrics : List UInt8}
    {count : Nat} (hw : WriterState s name iv fs closed cur)
    (hkey : key.length = s.layout.dimensionWidth) (hmetric : metrics.length = s.layout.metricWidth)
    (h : iv.appendRow s key metrics count fs = (.ok iv', fs')) :
    ∃ closed' rows', WriterState s name iv' fs' closed' (some rows') ∧
      written closed' (some rows') = written closed cur ++ [(key, ⟨count, metrics⟩)] ∧
      iv.Keeps iv' ∧ FS.Touches (SegmentFile name) fs fs' := by
  unfold appendRow at h
  obtain ⟨iv₁, fs₁, h₁, h⟩ := GoState.bind_eq_ok.mp h
  obtain ⟨closed₁, cur₁, hw₁, hwritten₁, hkeep₁, htouch₁⟩ := closeIfFull_spec hw h₁
  obtain ⟨iv₂, fs₂, h₂, h⟩ := GoState.bind_eq_ok.mp h
  obtain ⟨rows₂, hw₂, hwritten₂, hkeep₂, htouch₂⟩ := openIfNone_spec hw₁ h₂
  split at h
  · exact absurd h (GoState.lift_ne_ok (by simp))
  · rename_i hcount
    have hlt : count < 2 ^ 32 := by omega
    have htoNat : (UInt32.ofNat count).toNat = count := by
      rw [UInt32.toNat_ofNat', Nat.mod_eq_of_lt (by simpa using hlt)]
    have hfits : RowFits s (key, ⟨(UInt32.ofNat count).toNat, metrics⟩) :=
      ⟨hkey, hmetric, by simpa [htoNat] using hlt⟩
    obtain ⟨hw₃, hkeep₃, htouch₃⟩ :=
      writeKeyValCount_spec (hw₂.withCurSegmentSize (iv₂.curSegmentSize + s.layout.rowSize)) hfits h
    have hkeep₃' : iv₂.Keeps iv' :=
      ⟨hkeep₃.diskBacked_eq, hkeep₃.generation_eq, hkeep₃.start_eq, hkeep₃.stop_eq⟩
    refine ⟨closed₁, _, hw₃, ?_, hkeep₁.trans (hkeep₂.trans hkeep₃'),
      htouch₁.trans (htouch₂.trans htouch₃)⟩
    rw [written_some_append, hwritten₂, hwritten₁, htoNat]

/-- `appendRow` over a list of rows writes them in order. -/
theorem appendRows_spec {closed : List (List Row)} {cur : Option (List Row)} :
    ∀ {rows : List Row} {iv iv' : WriteOnlyInterval} {fs fs' : FS},
      WriterState s name iv fs closed cur →
      (∀ r ∈ rows, r.1.length = s.layout.dimensionWidth ∧
        r.2.metric.length = s.layout.metricWidth) →
      iv.appendRows s rows fs = (.ok iv', fs') →
      ∃ closed' cur', WriterState s name iv' fs' closed' cur' ∧
        written closed' cur' = written closed cur ++ rows ∧ (cur.isSome ∨ rows ≠ [] → cur'.isSome) ∧
        iv.Keeps iv' ∧ FS.Touches (SegmentFile name) fs fs'
  | [], iv, iv', fs, fs', hw, _, h => by
    cases h
    exact ⟨closed, cur, hw, by simp, fun h => h.resolve_right (by simp), Keeps.refl _,
      FS.Touches.refl _ _⟩
  | (key, v) :: rows, iv, iv', fs, fs', hw, hlen, h => by
    obtain ⟨iv₁, fs₁, h₁, h⟩ := GoState.bind_eq_ok.mp h
    have hr := hlen (key, v) List.mem_cons_self
    obtain ⟨closed₁, rows₁, hw₁, hwritten₁, hkeep₁, htouch₁⟩ := appendRow_spec hw hr.1 hr.2 h₁
    obtain ⟨closed', cur', hw', hwritten', hsome', hkeep', htouch'⟩ :=
      appendRows_spec hw₁ (fun r hr => hlen r (List.mem_cons_of_mem _ hr)) h
    refine ⟨closed', cur', hw', by rw [hwritten', hwritten₁]; simp, fun _ => hsome' (.inl rfl),
      hkeep₁.trans hkeep', htouch₁.trans htouch'⟩

/-! ### `freeze` -/

/-- What `freeze` reads: the closed segments, each in its file or its buffer. -/
structure SegmentsHeld (s : Schema) (name : Nat → String) (iv : WriteOnlyInterval) (fs : FS)
    (blocks : List (List Row)) : Prop where
  name_eq : ∀ i, iv.interval.segmentFilename s i = name i
  buffers_eq : iv.diskBacked = false → iv.buffers = blocks.map encodeRows
  files_eq : iv.diskBacked = true → ∀ i (hi : i < blocks.length),
    fs.files (name i) = some (encodeRows blocks[i])

theorem SegmentsHeld.of_files {blocks : List (List Row)} (hh : SegmentsHeld s name iv fs blocks)
    (h : fs'.files = fs.files) : SegmentsHeld s name iv fs' blocks :=
  ⟨hh.name_eq, hh.buffers_eq, fun hd i hi => h ▸ hh.files_eq hd i hi⟩

/-- Segment `i` reads back as its block. -/
theorem loadSegment_spec {blocks : List (List Row)} (hh : SegmentsHeld s name iv fs blocks)
    {i : Nat} (hi : i < blocks.length) {seg : Segment}
    (h : iv.loadSegment s i fs = (.ok seg, fs')) :
    seg = ⟨encodeRows blocks[i]⟩ ∧ fs'.files = fs.files := by
  unfold loadSegment at h
  cases hd : iv.diskBacked with
  | true =>
    simp only [hd, if_true] at h
    obtain ⟨bytes, fs₁, hread, hpure⟩ := GoState.bind_eq_ok.mp h
    cases hpure
    obtain ⟨hfile, hfiles⟩ := FS.readAll_of_ok hread
    rw [hh.name_eq, hh.files_eq hd i hi] at hfile
    exact ⟨by rw [Option.some.inj hfile], hfiles⟩
  | false =>
    simp only [hd, Bool.false_eq_true, if_false, hh.buffers_eq hd, List.getElem?_map,
      List.getElem?_eq_getElem hi, Option.map_some] at h
    cases h
    exact ⟨rfl, rfl⟩

/-- `freeze`'s loop reads the segments back in order. -/
theorem loadSegments_spec {blocks : List (List Row)} :
    ∀ {is : List Nat} {segs : List Segment} {fs fs' : FS}, SegmentsHeld s name iv fs blocks →
      (∀ i ∈ is, i < blocks.length) → iv.loadSegments s is fs = (.ok segs, fs') →
      segs = is.map (fun i => ⟨encodeRows (blocks.getD i [])⟩) ∧ fs'.files = fs.files
  | [], segs, fs, fs', _, _, h => by
    cases h
    exact ⟨rfl, rfl⟩
  | i :: is, segs, fs, fs', hh, his, h => by
    obtain ⟨seg, fs₁, h₁, h⟩ := GoState.bind_eq_ok.mp h
    obtain ⟨segs', fs₂, h₂, hpure⟩ := GoState.bind_eq_ok.mp h
    cases hpure
    have hi := his i List.mem_cons_self
    obtain ⟨rfl, hfiles₁⟩ := loadSegment_spec hh hi h₁
    obtain ⟨rfl, hfiles₂⟩ := loadSegments_spec (hh.of_files hfiles₁)
      (fun j hj => his j (List.mem_cons_of_mem _ hj)) h₂
    refine ⟨?_, hfiles₂.trans hfiles₁⟩
    simp [List.getElem?_eq_getElem hi]

theorem map_range_getD {α β : Type} (f : α → β) (d : α) (l : List α) :
    (List.range l.length).map (fun i => f (l.getD i d)) = l.map f := by
  apply List.ext_getElem (by simp)
  intro i h₁ h₂
  simp [List.getElem?_eq_getElem (by simpa using h₂ : i < l.length)]

/-- `freeze` closes the open segment and maps every segment: the interval's segments are the
blocks written, and no file changes. -/
theorem freeze_spec {closed : List (List Row)} {rows : List Row} {ivF : Interval}
    (hw : WriterState s name iv fs closed (some rows)) (h : iv.freeze s fs = (.ok ivF, fs')) :
    ivF.segments = (closed ++ [rows]).map (fun b => ⟨encodeRows b⟩) ∧
      ivF.numSegments = (closed ++ [rows]).length ∧
      ivF.numRows = (written closed (some rows)).length ∧
      ivF.generation = iv.interval.generation ∧ ivF.start = iv.interval.start ∧
      ivF.stop = iv.interval.stop ∧
      (iv.diskBacked = true → ∀ i (hi : i < (closed ++ [rows]).length),
        fs'.files (name i) = some (encodeRows (closed ++ [rows])[i])) ∧
      FS.Touches (SegmentFile name) fs fs' := by
  obtain ⟨iv₁, fs₁, h₁, h⟩ := GoState.bind_eq_ok.mp h
  obtain ⟨segs, fs₂, h₂, hpure⟩ := GoState.bind_eq_ok.mp h
  cases hpure
  obtain ⟨hw₁, hkeep₁, htouch₁⟩ := closeCurrentSegment_spec hw h₁
  have hn : iv₁.interval.numSegments = (closed ++ [rows]).length := by
    simpa using hw₁.numSegments_eq
  have hh₁ : SegmentsHeld s name iv₁ fs₁ (closed ++ [rows]) :=
    ⟨hw₁.name_eq, hw₁.buffers_eq, hw₁.files_eq⟩
  rw [hn] at h₂
  obtain ⟨rfl, hfiles⟩ := loadSegments_spec hh₁ (fun i hi => List.mem_range.mp hi) h₂
  refine ⟨by simpa using map_range_getD (fun b => (⟨encodeRows b⟩ : Segment)) [] (closed ++ [rows]),
    hn, by simpa [written] using hw₁.numRows_eq, hkeep₁.generation_eq, hkeep₁.start_eq,
    hkeep₁.stop_eq, fun hd i hi => ?_, htouch₁.trans (FS.Touches.of_files hfiles)⟩
  rw [hfiles]
  exact hw₁.files_eq (hkeep₁.diskBacked_eq.trans hd) i hi

end WriteOnlyInterval

/-! ## Writing intervals -/

/-- The value a key present in both the memtable and the static interval gets: the counts added,
and the static metrics added into a copy of the memtable's. -/
def combineValues (s : Schema) (mem static : MetricWithCount) : MetricWithCount :=
  ⟨mem.count + static.count, metricBytesAdd s mem.metric static.metric⟩

/-- The merge loop of `WriteCombinedInterval`, with its two drains. -/
def combineRows (s : Schema) (iv : WriteOnlyInterval) :
    List Row → List Row → GoState FS WriteOnlyInterval
  | [], statics => iv.appendRows s statics
  | (mk, mv) :: mems, [] => iv.appendRows s ((mk, mv) :: mems)
  | (mk, mv) :: mems, (sk, sv) :: statics =>
    match compare mk sk with
    | .lt => do
      let iv ← iv.appendRow s mk mv.metric mv.count
      combineRows s iv mems ((sk, sv) :: statics)
    | .gt => do
      let iv ← iv.appendRow s sk sv.metric sv.count
      combineRows s iv ((mk, mv) :: mems) statics
    | .eq => do
      let v := combineValues s mv sv
      let iv ← iv.appendRow s mk v.metric v.count
      combineRows s iv mems statics
termination_by mems statics => mems.length + statics.length

/-- `Schema.WriteMemInterval`: the tree's entries in key order, at generation 0. An empty tree
has no first entry (`SeekFirst` returns `io.EOF`). -/
def Schema.writeMemInterval (s : Schema) (mem : MemInterval) : GoState FS Interval :=
  match mem.tree with
  | [] => GoState.lift (.error "EOF")
  | tree => do
    let iv ← (newWriteOnlyInterval s.diskBacked 0 mem.start mem.stop).appendRows s tree
    iv.freeze s

/-- The panic of `WriteCombinedInterval` on intervals of different times. -/
def differentTimes : String := "attempt to combine memInterval/staticInterval from different times"

/-- `Schema.WriteCombinedInterval`: the merge of the tree with the static interval's rows, at the
static interval's next generation. -/
def Schema.writeCombinedInterval (s : Schema) (mem : MemInterval) (static : Interval) :
    GoState FS Interval :=
  if mem.start ≠ static.start ∨ mem.stop ≠ static.stop then GoState.lift (.panic differentTimes)
  else
    match mem.tree with
    | [] => GoState.lift (.error "EOF")
    | tree => do
      let iv ← combineRows s
        (newWriteOnlyInterval s.diskBacked (static.generation + 1) mem.start mem.stop)
        tree (static.rows s)
      iv.freeze s

/-! ## What the writers produce -/

/-- The interval `iv` holds the rows `rows`: the cursor reads them back in order, `NumRows` and
`NumSegments` count them, and when the database is on disk each segment's file holds the
segment. -/
structure Interval.Written (s : Schema) (fs : FS) (iv : Interval) (rows : List Row) : Prop where
  rows_eq : iv.rows s = rows
  numRows_eq : iv.numRows = rows.length
  numSegments_eq : iv.numSegments = iv.segments.length
  stored : s.diskBacked = true → ∀ i (hi : i < iv.segments.length),
    fs.files (iv.segmentFilename s i) = some iv.segments[i].bytes

/-- Segments written block by block read back as the blocks one after another. -/
theorem rows_of_blocks {s : Schema} {blocks : List (List Row)}
    (h : ∀ r ∈ blocks.flatten, RowFits s r) :
    (blocks.map fun b => (⟨encodeRows b⟩ : Segment)).flatMap (Segment.rows s) = blocks.flatten := by
  induction blocks with
  | nil => rfl
  | cons b blocks ih =>
    simp only [List.flatten_cons, List.mem_append] at h
    simp only [List.map_cons, List.flatMap_cons, List.flatten_cons]
    rw [Segment.rows_encodeRows (fun r hr => h r (.inl hr)), ih (fun r hr => h r (.inr hr))]

/-- A fresh write-only interval to which the rows are appended, then frozen, holds them. -/
theorem written_of_appendRows_freeze {s : Schema} {generation : Nat} {start stop : ℤ}
    {rows : List Row} {ivF : Interval} {fs fs' : FS} (hne : rows ≠ [])
    (hlen : ∀ r ∈ rows, r.1.length = s.layout.dimensionWidth ∧
      r.2.metric.length = s.layout.metricWidth)
    (h : ((newWriteOnlyInterval s.diskBacked generation start stop).appendRows s rows >>=
      fun iv => iv.freeze s) fs = (.ok ivF, fs')) :
    ivF.Written s fs' rows ∧ ivF.generation = generation ∧ ivF.start = start ∧ ivF.stop = stop ∧
      FS.Touches (SegmentFile (ivF.segmentFilename s)) fs fs' := by
  obtain ⟨iv, fs₁, h₁, h₂⟩ := GoState.bind_eq_ok.mp h
  obtain ⟨closed, cur, hw, hwritten, hsome, hkeep, htouch⟩ :=
    WriteOnlyInterval.appendRows_spec (writerState_new s s.diskBacked generation start stop fs) hlen h₁
  obtain ⟨rows', rfl⟩ := Option.isSome_iff_exists.mp (hsome (.inr hne))
  obtain ⟨hsegs, hnum, hnumRows, hgen, hstart, hstop, hfiles, htouch₂⟩ :=
    WriteOnlyInterval.freeze_spec hw h₂
  obtain ⟨g, st, en, segs, n, r⟩ := ivF
  simp only at hsegs hnum hnumRows hgen hstart hstop
  subst hsegs hnum hnumRows hgen hstart hstop
  have hrows : written closed (some rows') = rows := by simpa [written] using hwritten
  have hflat : (closed ++ [rows']).flatten = rows := by simpa [written] using hrows
  have hnames : (Interval.segmentFilename s ⟨iv.interval.generation, iv.interval.start,
      iv.interval.stop, (closed ++ [rows']).map fun b => ⟨encodeRows b⟩, (closed ++ [rows']).length,
      (written closed (some rows')).length⟩) = iv.interval.segmentFilename s := rfl
  refine ⟨⟨?_, by rw [hrows], by simp, fun hd i hi => ?_⟩, hkeep.generation_eq, hkeep.start_eq,
    hkeep.stop_eq, ?_⟩
  · rw [Interval.rows, rows_of_blocks (by rw [hflat]; exact hrows ▸ hw.fits), hflat]
  · have hi' : i < (closed ++ [rows']).length := by simpa using hi
    have hname : Interval.segmentFilename s ⟨iv.interval.generation, iv.interval.start,
        iv.interval.stop, (closed ++ [rows']).map fun b => ⟨encodeRows b⟩, (closed ++ [rows']).length,
        (written closed (some rows')).length⟩ i = iv.interval.segmentFilename s i := rfl
    rw [hname, hw.name_eq, hfiles (hkeep.diskBacked_eq.trans hd) i hi', List.getElem_map]
  · rw [hnames, funext hw.name_eq]
    exact htouch.trans htouch₂

/-- The merge loop of `WriteCombinedInterval` appends exactly the merge of the two runs, a key
present in both carrying `combineValues` of its two values. -/
theorem combineRows_eq (s : Schema) (iv : WriteOnlyInterval) (mems statics : List Row) :
    combineRows s iv mems statics =
      iv.appendRows s (SortedMap.mergeWith (combineValues s) mems statics) := by
  fun_induction combineRows s iv mems statics with
  | case1 iv statics => simp [SortedMap.mergeWith]
  | case2 iv mk mv mems => simp [SortedMap.mergeWith]
  | case3 iv mk mv mems sk sv statics hlt ih =>
    rw [SortedMap.mergeWith, hlt]
    simp only [WriteOnlyInterval.appendRows, ih]
  | case4 iv mk mv mems sk sv statics hgt ih =>
    rw [SortedMap.mergeWith, hgt]
    simp only [WriteOnlyInterval.appendRows, ih]
  | case5 iv mk mv mems sk sv statics heq v ih =>
    rw [SortedMap.mergeWith, heq]
    simp only [WriteOnlyInterval.appendRows, ih, v]

/-- The rows of a tree or an interval have dimension and metric bytes of the schema's widths. -/
def KeysFit (s : Schema) (rows : List Row) : Prop :=
  ∀ r ∈ rows, r.1.length = s.layout.dimensionWidth ∧ r.2.metric.length = s.layout.metricWidth

/-- Combining two values keeps the width of the metric bytes. -/
theorem keysFit_mergeWith {s : Schema} {mems statics : List Row} (hmem : KeysFit s mems)
    (hstatic : KeysFit s statics) :
    KeysFit s (SortedMap.mergeWith (combineValues s) mems statics) :=
  SortedMap.forall_mem_mergeWith _ _
    (fun _ _ _ _ h₁ _ => ⟨h₁.1, length_metricBytesAdd _ h₁.2⟩) hmem hstatic

/-- `WriteMemInterval` writes the tree's entries in key order, at generation 0, and touches only
the new interval's segment files. -/
theorem Schema.writeMemInterval_spec {s : Schema} {mem : MemInterval} {iv : Interval}
    {fs fs' : FS} (hfit : KeysFit s mem.tree) (h : s.writeMemInterval mem fs = (.ok iv, fs')) :
    iv.Written s fs' mem.tree ∧ iv.generation = 0 ∧ iv.start = mem.start ∧ iv.stop = mem.stop ∧
      FS.Touches (SegmentFile (iv.segmentFilename s)) fs fs' := by
  unfold writeMemInterval at h
  cases htree : mem.tree with
  | nil =>
    rw [htree] at h
    exact absurd h (GoState.lift_ne_ok (by simp))
  | cons r rows =>
    rw [htree] at h hfit
    exact written_of_appendRows_freeze (List.cons_ne_nil r rows) hfit h

/-- `WriteCombinedInterval` writes the merge of the tree with the static interval's rows, at the
next generation, and touches only the new interval's segment files. -/
theorem Schema.writeCombinedInterval_spec {s : Schema} {mem : MemInterval} {static iv : Interval}
    {fs fs' : FS} (hmem : KeysFit s mem.tree) (hstatic : KeysFit s (static.rows s))
    (h : s.writeCombinedInterval mem static fs = (.ok iv, fs')) :
    iv.Written s fs' (SortedMap.mergeWith (combineValues s) mem.tree (static.rows s)) ∧
      iv.generation = static.generation + 1 ∧ iv.start = mem.start ∧ iv.stop = mem.stop ∧
      FS.Touches (SegmentFile (iv.segmentFilename s)) fs fs' := by
  unfold writeCombinedInterval at h
  split at h
  · exact absurd h (GoState.lift_ne_ok (by simp))
  · cases htree : mem.tree with
    | nil =>
      rw [htree] at h
      exact absurd h (GoState.lift_ne_ok (by simp))
    | cons r rows =>
      rw [htree] at h hmem
      dsimp only at h
      rw [combineRows_eq] at h
      exact written_of_appendRows_freeze
        (SortedMap.mergeWith_ne_nil _ (List.cons_ne_nil r rows) _) (keysFit_mergeWith hmem hstatic) h

end Gumshoe
