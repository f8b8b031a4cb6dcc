import Gumshoe.Interval
import Gumshoe.Config

/-!
# Segments of written intervals

When `appendRow` runs, and what the segments it fills look like.

`appendRow` closes the open segment when the row would not fit in it, and opens a segment when
none is open. A row wider than a segment never fits: the first `appendRow` of a fresh interval
tries to close the segment that was never opened, and the type assertion on the nil writer
panics (`appendRow_of_wide`). `makeSchema` accepts such schemas, so with thirteen `uint64` metrics
and 100-byte segments every flush panics (`makeSchema_accepts_wide_rows`).

When a row fits a segment, `k = SegmentSize / RowSize` rows fill one. On a directory without
faults, and with counts below `2 ^ 32`, every `appendRow` and the final `freeze` succeed
(`Filling`, `appendRow_ok`, `freeze_ok`); every closed segment holds exactly `k` rows and the last
one between 1 and `k`, so `n` rows take `⌈n / k⌉` segments.
-/

namespace Gumshoe

namespace WriteOnlyInterval

variable {s : Schema}

/-! ## Rows wider than a segment -/

/-- The panic of closing a segment that was never opened: the type assertion on a nil
`io.Writer`. -/
def nilSegmentPanic (diskBacked : Bool) : String :=
  typeAssertionPanic none (if diskBacked then "*os.File" else "*bytes.Buffer")

/-- `closeCurrentSegment` with no open segment panics. -/
theorem closeCurrentSegment_of_none {iv : WriteOnlyInterval} (h : iv.curSegment = none)
    (fs : FS) : iv.closeCurrentSegment fs = (.panic (nilSegmentPanic iv.diskBacked), fs) := by
  unfold closeCurrentSegment nilSegmentPanic
  cases iv.diskBacked <;> simp [h, GoState.lift_apply]

/-- A row that does not fit, appended when no segment is open, panics. -/
theorem appendRow_of_wide {iv : WriteOnlyInterval} (hnone : iv.curSegment = none)
    (hwide : s.segmentSize < iv.curSegmentSize + s.layout.rowSize) (key metrics : List UInt8)
    (count : Nat) (fs : FS) :
    iv.appendRow s key metrics count fs = (.panic (nilSegmentPanic iv.diskBacked), fs) := by
  have hclose : iv.closeIfFull s fs = (.panic (nilSegmentPanic iv.diskBacked), fs) := by
    rw [closeIfFull, if_pos hwide]
    exact GoState.bind_of_panic (closeCurrentSegment_of_none hnone fs)
  exact GoState.bind_of_panic hclose

/-- On a schema whose rows are wider than its segments, the first row appended to a fresh
interval panics. -/
theorem appendRows_of_wide (hwide : s.segmentSize < s.layout.rowSize) (diskBacked : Bool)
    (generation : Nat) (start stop : ℤ) {rows : List Row} (hne : rows ≠ []) (fs : FS) :
    (newWriteOnlyInterval diskBacked generation start stop).appendRows s rows fs =
      (.panic (nilSegmentPanic diskBacked), fs) := by
  obtain ⟨⟨key, v⟩, rows, rfl⟩ := List.exists_cons_of_ne_nil hne
  have hfirst := @appendRow_of_wide s (newWriteOnlyInterval diskBacked generation start stop) rfl
    (show s.segmentSize < 0 + s.layout.rowSize by omega) key v.metric v.count fs
  exact GoState.bind_of_panic hfirst

/-! ## Writers that succeed -/

variable {name : Nat → String} {iv : WriteOnlyInterval} {fs : FS}

/-- A write on a directory without faults succeeds. -/
theorem SegmentWriter.write_ok (w : SegmentWriter) (bytes : List UInt8) (hfs : fs.NoFaults) :
    ∃ w' fs', w.write bytes fs = (.ok w', fs') ∧ fs'.NoFaults := by
  cases w with
  | file n =>
    obtain ⟨fs', hwrite, hfs'⟩ := FS.write_of_noFaults n bytes hfs
    exact ⟨_, fs', GoState.bind_of_ok hwrite, hfs'⟩
  | buffer b => exact ⟨_, fs, rfl, hfs⟩

/-- Closing the open segment on a directory without faults succeeds. -/
theorem closeCurrentSegment_ok {closed : List (List Row)} {rows : List Row}
    (hw : WriterState s name iv fs closed (some rows)) (hfs : fs.NoFaults) :
    ∃ iv' fs', iv.closeCurrentSegment fs = (.ok iv', fs') ∧ fs'.NoFaults := by
  have hcur := hw.curSegment_eq
  unfold closeCurrentSegment
  cases hd : iv.diskBacked with
  | true =>
    simp only [hd, if_true, Option.map_some] at hcur ⊢
    rw [hcur]
    obtain ⟨fs', hclose, hfs'⟩ := FS.close_of_noFaults (name closed.length) hfs
    exact ⟨_, fs', GoState.bind_of_ok hclose, hfs'⟩
  | false =>
    simp only [hd, Bool.false_eq_true, if_false, Option.map_some] at hcur ⊢
    rw [hcur]
    exact ⟨_, fs, rfl, hfs⟩

/-- Opening a segment on a directory without faults succeeds, and leaves the segment size. -/
theorem openFreshSegment_ok (hfs : fs.NoFaults) :
    ∃ iv' fs', iv.openFreshSegment s fs = (.ok iv', fs') ∧
      iv'.curSegmentSize = iv.curSegmentSize ∧ fs'.NoFaults := by
  unfold openFreshSegment
  cases iv.diskBacked with
  | true =>
    obtain ⟨fs', hcreate, hfs'⟩ := FS.create_of_noFaults
      (iv.interval.segmentFilename s iv.interval.numSegments) hfs
    exact ⟨_, fs', GoState.bind_of_ok hcreate, rfl, hfs'⟩
  | false => exact ⟨_, fs, rfl, rfl, hfs⟩

/-- Writing a row into the open segment on a directory without faults succeeds, and leaves the
segment size. -/
theorem writeKeyValCount_ok {closed : List (List Row)} {rows : List Row}
    (hw : WriterState s name iv fs closed (some rows)) (key val : List UInt8) (count : UInt32)
    (hfs : fs.NoFaults) :
    ∃ iv' fs', iv.writeKeyValCount key val count fs = (.ok iv', fs') ∧
      iv'.curSegmentSize = iv.curSegmentSize ∧ fs'.NoFaults := by
  obtain ⟨w, hcur, -, -⟩ := hw.holds
  unfold writeKeyValCount
  rw [hcur]
  -- the three writes: the count, the key, the metrics
  obtain ⟨w₁, fs₁, h₁, hfs₁⟩ :=
    SegmentWriter.write_ok w (Bytes.encodeLE countColumnWidth count.toNat) hfs
  obtain ⟨w₂, fs₂, h₂, hfs₂⟩ := SegmentWriter.write_ok w₁ key hfs₁
  obtain ⟨w₃, fs₃, h₃, hfs₃⟩ := SegmentWriter.write_ok w₂ val hfs₂
  refine ⟨{ iv with
      curSegment := some w₃
      interval := { iv.interval with numRows := iv.interval.numRows + 1 } }, fs₃, ?_, rfl, hfs₃⟩
  dsimp only
  rw [GoState.bind_of_ok h₁, GoState.bind_of_ok h₂, GoState.bind_of_ok h₃]
  rfl

/-! ## The shape of the segments -/

/-- The segments a writer has filled, when a row fits a segment: the open segment's size counts
its rows, no segment holds more than `SegmentSize / RowSize` rows, and every closed one holds
exactly that many. -/
structure Filling (s : Schema) (iv : WriteOnlyInterval) (closed : List (List Row))
    (cur : Option (List Row)) : Prop where
  curSegmentSize_eq : iv.curSegmentSize = s.layout.rowSize * (cur.getD []).length
  cur_le : ∀ rows ∈ cur, rows.length ≤ s.segmentSize / s.layout.rowSize
  closed_full : ∀ b ∈ closed, b.length = s.segmentSize / s.layout.rowSize

theorem filling_new (s : Schema) (diskBacked : Bool) (generation : Nat) (start stop : ℤ) :
    Filling s (newWriteOnlyInterval diskBacked generation start stop) [] none :=
  ⟨rfl, fun _ h => (Option.not_mem_none _ h).elim, fun _ h => (List.not_mem_nil h).elim⟩

section Fits

variable (hfit : s.layout.rowSize ≤ s.segmentSize)
include hfit

/-- `closeIfFull` on a directory without faults succeeds and leaves room for one row; the
segment it closes holds `SegmentSize / RowSize` rows. -/
theorem closeIfFull_ok {closed : List (List Row)} {cur : Option (List Row)}
    (hw : WriterState s name iv fs closed cur) (hf : Filling s iv closed cur) (hfs : fs.NoFaults) :
    ∃ iv' fs' closed' cur', iv.closeIfFull s fs = (.ok iv', fs') ∧
      WriterState s name iv' fs' closed' cur' ∧ Filling s iv' closed' cur' ∧
      iv'.curSegmentSize + s.layout.rowSize ≤ s.segmentSize ∧
      written closed' cur' = written closed cur ∧ iv.Keeps iv' ∧
      FS.Touches (SegmentFile name) fs fs' ∧ fs'.NoFaults := by
  by_cases hfull : iv.curSegmentSize + s.layout.rowSize > s.segmentSize
  · cases cur with
    | none =>
      -- no open segment means an empty one, and a row fits an empty segment
      have h0 : iv.curSegmentSize = 0 := by simpa using hf.curSegmentSize_eq
      omega
    | some rows =>
      obtain ⟨iv₁, fs₁, hclose, hfs₁⟩ := closeCurrentSegment_ok hw hfs
      obtain ⟨hw₁, hkeep, htouch⟩ := closeCurrentSegment_spec hw hclose
      -- the closed segment is full: one more row would not fit
      have hrows : rows.length = s.segmentSize / s.layout.rowSize := by
        have hle := hf.cur_le rows rfl
        have hsize : iv.curSegmentSize = s.layout.rowSize * rows.length := by
          simpa using hf.curSegmentSize_eq
        have hlt : s.segmentSize / s.layout.rowSize < rows.length + 1 := by
          rw [Nat.div_lt_iff_lt_mul s.rowSize_pos, Nat.add_mul, Nat.one_mul, Nat.mul_comm]
          rw [hsize] at hfull
          omega
        omega
      refine ⟨_, fs₁, closed ++ [rows], none, ?_, hw₁, ⟨rfl, ?_, ?_⟩, by simpa using hfit,
        by simp [written], ⟨hkeep.diskBacked_eq, hkeep.generation_eq, hkeep.start_eq,
          hkeep.stop_eq⟩, htouch, hfs₁⟩
      · rw [closeIfFull, if_pos hfull, GoState.bind_of_ok hclose]
        rfl
      · exact fun _ h => (Option.not_mem_none _ h).elim
      · intro b hb
        rcases List.mem_append.mp hb with hb | hb
        · exact hf.closed_full b hb
        · rw [List.mem_singleton.mp hb, hrows]
  · refine ⟨iv, fs, closed, cur, ?_, hw, hf, by omega, rfl, Keeps.refl _, FS.Touches.refl _ _, hfs⟩
    rw [closeIfFull, if_neg hfull]
    rfl

end Fits


/-- `openIfNone` on a directory without faults succeeds, and leaves the segment size. -/
theorem openIfNone_ok {closed : List (List Row)} {cur : Option (List Row)}
    (hw : WriterState s name iv fs closed cur) (hf : Filling s iv closed cur) (hfs : fs.NoFaults) :
    ∃ iv' fs' rows, iv.openIfNone s fs = (.ok iv', fs') ∧
      WriterState s name iv' fs' closed (some rows) ∧ Filling s iv' closed (some rows) ∧
      iv'.curSegmentSize = iv.curSegmentSize ∧ written closed (some rows) = written closed cur ∧
      iv.Keeps iv' ∧ FS.Touches (SegmentFile name) fs fs' ∧ fs'.NoFaults := by
  unfold openIfNone
  cases cur with
  | none =>
    have hnone : iv.curSegment = none := by simpa using hw.curSegment_eq
    rw [hnone]
    obtain ⟨iv', fs', hopen, hsize, hfs'⟩ := @openFreshSegment_ok s iv fs hfs
    obtain ⟨hw', hkeep, htouch⟩ := openFreshSegment_spec hw hopen
    refine ⟨iv', fs', [], hopen, hw', ⟨?_, fun _ h => ?_, hf.closed_full⟩, hsize,
      by simp [written], hkeep, htouch, hfs'⟩
    · simpa [hsize] using hf.curSegmentSize_eq
    · cases h
      simp
  | some rows =>
    have hsome : iv.curSegment.isNone = false := by simp [hw.curSegment_eq]
    rw [hsome]
    exact ⟨iv, fs, rows, rfl, hw, hf, rfl, rfl, Keeps.refl _, FS.Touches.refl _ _, hfs⟩

section Append

variable (hfit : s.layout.rowSize ≤ s.segmentSize)
include hfit

/-- `appendRow` on a directory without faults, with a count that fits the count column,
succeeds: it writes the row after everything written before, into an open segment that it
keeps within `SegmentSize / RowSize` rows. -/
theorem appendRow_ok {closed : List (List Row)} {cur : Option (List Row)}
    {key metrics : List UInt8} {count : Nat} (hw : WriterState s name iv fs closed cur)
    (hf : Filling s iv closed cur) (hfs : fs.NoFaults)
    (hkey : key.length = s.layout.dimensionWidth) (hmetric : metrics.length = s.layout.metricWidth)
    (hcount : count < 2 ^ 32) :
    ∃ iv' fs' closed' rows', iv.appendRow s key metrics count fs = (.ok iv', fs') ∧
      WriterState s name iv' fs' closed' (some rows') ∧ Filling s iv' closed' (some rows') ∧
      rows' ≠ [] ∧ written closed' (some rows') = written closed cur ++ [(key, ⟨count, metrics⟩)] ∧
      iv.Keeps iv' ∧ FS.Touches (SegmentFile name) fs fs' ∧ fs'.NoFaults := by
  obtain ⟨iv₁, fs₁, closed₁, cur₁, h₁, hw₁, hf₁, hroom, hwritten₁, hkeep₁, htouch₁, hfs₁⟩ :=
    closeIfFull_ok hfit hw hf hfs
  obtain ⟨iv₂, fs₂, rows₂, h₂, hw₂, hf₂, hsize₂, hwritten₂, hkeep₂, htouch₂, hfs₂⟩ :=
    openIfNone_ok hw₁ hf₁ hfs₁
  have htoNat : (UInt32.ofNat count).toNat = count := by
    rw [UInt32.toNat_ofNat', Nat.mod_eq_of_lt (by simpa using hcount)]
  have hfits : RowFits s (key, ⟨(UInt32.ofNat count).toNat, metrics⟩) :=
    ⟨hkey, hmetric, by simpa [htoNat] using hcount⟩
  have hw₂' := hw₂.withCurSegmentSize (iv₂.curSegmentSize + s.layout.rowSize)
  obtain ⟨iv', fs', h₃, hsize₃, hfs'⟩ := writeKeyValCount_ok hw₂' key metrics (UInt32.ofNat count) hfs₂
  obtain ⟨hw₃, hkeep₃, htouch₃⟩ := writeKeyValCount_spec hw₂' hfits h₃
  -- the open segment had room for the row
  have hlen₂ : iv₂.curSegmentSize = s.layout.rowSize * rows₂.length := by
    simpa using hf₂.curSegmentSize_eq
  have hroom₂ : s.layout.rowSize * (rows₂.length + 1) ≤ s.segmentSize := by
    rw [Nat.mul_succ, ← hlen₂, hsize₂]
    exact hroom
  refine ⟨iv', fs', closed₁, rows₂ ++ [(key, ⟨(UInt32.ofNat count).toNat, metrics⟩)], ?_, hw₃,
    ⟨?_, fun r hr => ?_, hf₂.closed_full⟩, by simp, ?_,
    hkeep₁.trans (hkeep₂.trans ⟨hkeep₃.diskBacked_eq, hkeep₃.generation_eq, hkeep₃.start_eq,
      hkeep₃.stop_eq⟩), htouch₁.trans (htouch₂.trans htouch₃), hfs'⟩
  · rw [appendRow, GoState.bind_of_ok h₁, GoState.bind_of_ok h₂, if_neg (by omega)]
    exact h₃
  · simp [hsize₃, hlen₂, Nat.mul_succ]
  · cases hr
    rw [List.length_append, List.length_singleton, Nat.le_div_iff_mul_le s.rowSize_pos,
      Nat.mul_comm]
    exact hroom₂
  · rw [written_some_append, hwritten₂, hwritten₁, htoNat]

/-- `appendRow` over rows that fit, on a directory without faults, succeeds and writes them in
order; after at least one row a segment is open and holds a row. -/
theorem appendRows_ok :
    ∀ {rows : List Row} {iv : WriteOnlyInterval} {fs : FS} {closed : List (List Row)}
      {cur : Option (List Row)}, WriterState s name iv fs closed cur → Filling s iv closed cur →
      fs.NoFaults → KeysFit s rows → (∀ r ∈ rows, r.2.count < 2 ^ 32) →
      ∃ iv' fs' closed' cur', iv.appendRows s rows fs = (.ok iv', fs') ∧
        WriterState s name iv' fs' closed' cur' ∧ Filling s iv' closed' cur' ∧
        ((rows = [] ∧ cur' = cur) ∨ ∃ rows', cur' = some rows' ∧ rows' ≠ []) ∧
        written closed' cur' = written closed cur ++ rows ∧ iv.Keeps iv' ∧
        FS.Touches (SegmentFile name) fs fs' ∧ fs'.NoFaults
  | [], iv, fs, closed, cur, hw, hf, hfs, _, _ =>
    ⟨iv, fs, closed, cur, rfl, hw, hf, .inl ⟨rfl, rfl⟩, by simp, Keeps.refl _,
      FS.Touches.refl _ _, hfs⟩
  | (key, v) :: rows, iv, fs, closed, cur, hw, hf, hfs, hlen, hcount => by
    have hr := hlen (key, v) List.mem_cons_self
    obtain ⟨iv₁, fs₁, closed₁, rows₁, h₁, hw₁, hf₁, hne₁, hwritten₁, hkeep₁, htouch₁, hfs₁⟩ :=
      appendRow_ok hfit hw hf hfs hr.1 hr.2 (hcount (key, v) List.mem_cons_self)
    obtain ⟨iv', fs', closed', cur', h', hw', hf', hcur', hwritten', hkeep', htouch', hfs'⟩ :=
      appendRows_ok hw₁ hf₁ hfs₁ (fun r hr => hlen r (List.mem_cons_of_mem _ hr))
        (fun r hr => hcount r (List.mem_cons_of_mem _ hr))
    refine ⟨iv', fs', closed', cur', ?_, hw', hf', .inr ?_, ?_, hkeep₁.trans hkeep',
      htouch₁.trans htouch', hfs'⟩
    · rw [appendRows, GoState.bind_of_ok h₁]
      exact h'
    · rcases hcur' with ⟨-, rfl⟩ | hsome
      · exact ⟨rows₁, rfl, hne₁⟩
      · exact hsome
    · rw [hwritten', hwritten₁]
      simp

end Append

/-! ## `freeze` -/

/-- `freeze`'s loop reads every segment on a directory without faults. -/
theorem loadSegments_ok {blocks : List (List Row)} :
    ∀ {is : List Nat} {fs : FS}, SegmentsHeld s name iv fs blocks → fs.NoFaults →
      (∀ i ∈ is, i < blocks.length) →
      ∃ segs fs', iv.loadSegments s is fs = (.ok segs, fs') ∧ fs'.NoFaults
  | [], fs, _, hfs, _ => ⟨[], fs, rfl, hfs⟩
  | i :: is, fs, hh, hfs, his => by
    have hi := his i List.mem_cons_self
    -- segment `i`: its file, or its buffer
    have hseg : ∃ seg fs₁, iv.loadSegment s i fs = (.ok seg, fs₁) ∧ fs₁.files = fs.files ∧
        fs₁.NoFaults := by
      unfold loadSegment
      cases hd : iv.diskBacked with
      | true =>
        have hfile := hh.files_eq hd i hi
        rw [← hh.name_eq] at hfile
        obtain ⟨fs₁, hread, hfs₁⟩ := FS.readAll_of_noFaults hfs hfile
        refine ⟨_, fs₁, GoState.bind_of_ok hread, ?_, hfs₁⟩
        simpa [hread] using FS.readAll_files (iv.interval.segmentFilename s i) fs
      | false =>
        simp only [Bool.false_eq_true, if_false, hh.buffers_eq hd, List.getElem?_map,
          List.getElem?_eq_getElem hi, Option.map_some]
        exact ⟨_, fs, rfl, rfl, hfs⟩
    obtain ⟨seg, fs₁, h₁, hfiles₁, hfs₁⟩ := hseg
    obtain ⟨segs, fs', h₂, hfs'⟩ := loadSegments_ok (hh.of_files hfiles₁) hfs₁
      (fun j hj => his j (List.mem_cons_of_mem _ hj))
    refine ⟨seg :: segs, fs', ?_, hfs'⟩
    rw [loadSegments, GoState.bind_of_ok h₁, GoState.bind_of_ok h₂]
    rfl

/-- `freeze` of a writer with an open segment succeeds on a directory without faults. -/
theorem freeze_ok {closed : List (List Row)} {rows : List Row}
    (hw : WriterState s name iv fs closed (some rows)) (hfs : fs.NoFaults) :
    ∃ ivF fs', iv.freeze s fs = (.ok ivF, fs') ∧ fs'.NoFaults := by
  obtain ⟨iv₁, fs₁, h₁, hfs₁⟩ := closeCurrentSegment_ok hw hfs
  obtain ⟨hw₁, -, -⟩ := closeCurrentSegment_spec hw h₁
  have hn : iv₁.interval.numSegments = (closed ++ [rows]).length := by
    simpa using hw₁.numSegments_eq
  have hh₁ : SegmentsHeld s name iv₁ fs₁ (closed ++ [rows]) :=
    ⟨hw₁.name_eq, hw₁.buffers_eq, hw₁.files_eq⟩
  obtain ⟨segs, fs', h₂, hfs'⟩ := loadSegments_ok hh₁ hfs₁
    (fun i (hi : i ∈ List.range iv₁.interval.numSegments) => hn ▸ List.mem_range.mp hi)
  refine ⟨{ iv₁.interval with segments := segs }, fs', ?_, hfs'⟩
  rw [freeze, GoState.bind_of_ok h₁, GoState.bind_of_ok h₂]
  rfl

end WriteOnlyInterval

open WriteOnlyInterval

/-! ## Segment layout of a written interval -/

theorem length_encodeRows {s : Schema} {rows : List Row} (h : ∀ r ∈ rows, RowFits s r) :
    (encodeRows rows).length = rows.length * s.layout.rowSize := by
  rw [encodeRows, List.length_flatMap, List.map_congr_left fun r hr => length_encodeRow (h r hr),
    List.map_const', List.sum_replicate, smul_eq_mul]

/-- `n` rows in full blocks of `k` and a last block of `1` to `k` rows take `⌈n / k⌉` blocks. -/
theorem length_div_ceil {α : Type} {closed : List (List α)} {last : List α} {k : Nat}
    (hfull : ∀ b ∈ closed, b.length = k) (hpos : 0 < last.length) (hle : last.length ≤ k) :
    (closed ++ [last]).length = ((closed ++ [last]).flatten.length + k - 1) / k := by
  have hflat : closed.flatten.length = closed.length * k := by
    rw [List.length_flatten, List.map_congr_left hfull, List.map_const', List.sum_replicate,
      smul_eq_mul]
  simp only [List.flatten_append, List.flatten_singleton, List.length_append,
    List.length_singleton, hflat]
  symm
  apply Nat.div_eq_of_lt_le
  · rw [Nat.add_mul, Nat.one_mul]
    omega
  · rw [Nat.add_mul, Nat.add_mul, Nat.one_mul]
    omega

section Fits

variable {s : Schema} (hfit : s.layout.rowSize ≤ s.segmentSize)
include hfit

/-- Rows that fit, appended to a fresh interval on a directory without faults and frozen: the
run succeeds, every segment holds between one and `SegmentSize / RowSize` rows, and `n` rows
take `⌈n / (SegmentSize / RowSize)⌉` segments. -/
theorem appendRows_freeze_ok (generation : Nat) (start stop : ℤ) {rows : List Row} {fs : FS}
    (hne : rows ≠ []) (hlen : KeysFit s rows) (hcount : ∀ r ∈ rows, r.2.count < 2 ^ 32)
    (hfs : fs.NoFaults) :
    ∃ ivF fs', ((newWriteOnlyInterval s.diskBacked generation start stop).appendRows s rows >>=
        fun iv => iv.freeze s) fs = (.ok ivF, fs') ∧
      (∀ seg ∈ ivF.segments, 0 < seg.bytes.length ∧ s.layout.rowSize ∣ seg.bytes.length ∧
        seg.bytes.length ≤ s.segmentSize) ∧
      ivF.numSegments = (rows.length + s.segmentSize / s.layout.rowSize - 1) /
        (s.segmentSize / s.layout.rowSize) := by
  obtain ⟨iv, fs₁, closed, cur, h₁, hw, hf, hcur, hwritten, -, -, hfs₁⟩ :=
    appendRows_ok hfit (writerState_new s s.diskBacked generation start stop fs)
      (filling_new s s.diskBacked generation start stop) hfs hlen hcount
  obtain ⟨rows', rfl, hne'⟩ : ∃ rows', cur = some rows' ∧ rows' ≠ [] := by
    rcases hcur with ⟨rfl, -⟩ | hsome
    · exact absurd rfl hne
    · exact hsome
  obtain ⟨ivF, fs', h₂, -⟩ := freeze_ok hw hfs₁
  obtain ⟨hsegs, hnum, -⟩ := freeze_spec hw h₂
  have hrows : (closed ++ [rows']).flatten = rows := by simpa [written] using hwritten
  have hk : 0 < s.segmentSize / s.layout.rowSize := Nat.div_pos hfit s.rowSize_pos
  -- every block holds between one and `SegmentSize / RowSize` rows
  have hblock : ∀ b ∈ closed ++ [rows'],
      0 < b.length ∧ b.length ≤ s.segmentSize / s.layout.rowSize := by
    intro b hb
    rcases List.mem_append.mp hb with hb | hb
    · rw [hf.closed_full b hb]
      exact ⟨hk, le_rfl⟩
    · rw [List.mem_singleton.mp hb]
      exact ⟨List.length_pos_of_ne_nil hne', hf.cur_le rows' rfl⟩
  refine ⟨ivF, fs', by rw [GoState.bind_of_ok h₁]; exact h₂, fun seg hseg => ?_, ?_⟩
  · rw [hsegs, List.mem_map] at hseg
    obtain ⟨b, hb, rfl⟩ := hseg
    have hfits : ∀ r ∈ b, RowFits s r := fun r hr => by
      refine hw.fits r ?_
      rw [show written closed (some rows') = (closed ++ [rows']).flatten by simp [written]]
      exact List.mem_flatten.mpr ⟨b, hb, hr⟩
    obtain ⟨hpos, hle⟩ := hblock b hb
    show 0 < (encodeRows b).length ∧ s.layout.rowSize ∣ (encodeRows b).length ∧
      (encodeRows b).length ≤ s.segmentSize
    rw [length_encodeRows hfits]
    refine ⟨Nat.mul_pos hpos s.rowSize_pos, Dvd.intro_left _ rfl, ?_⟩
    calc b.length * s.layout.rowSize
        ≤ s.segmentSize / s.layout.rowSize * s.layout.rowSize := Nat.mul_le_mul_right _ hle
      _ ≤ s.segmentSize := Nat.div_mul_le_self _ _
  · rw [hnum, ← hrows]
    exact length_div_ceil (fun b hb => hf.closed_full b hb)
      (List.length_pos_of_ne_nil hne') (hf.cur_le rows' rfl)

/-- `WriteMemInterval` succeeds on a non-empty tree of rows that fit, with counts below
`2 ^ 32`, on a directory without faults. -/
theorem Schema.writeMemInterval_ok {mem : MemInterval} {fs : FS} (hne : mem.tree ≠ [])
    (hmem : KeysFit s mem.tree) (hcount : ∀ r ∈ mem.tree, r.2.count < 2 ^ 32)
    (hfs : fs.NoFaults) : ∃ iv fs', s.writeMemInterval mem fs = (.ok iv, fs') := by
  obtain ⟨iv, fs', h, -, -⟩ := appendRows_freeze_ok hfit 0 mem.start mem.stop hne hmem hcount hfs
  refine ⟨iv, fs', ?_⟩
  unfold Schema.writeMemInterval
  obtain ⟨r, rows, htree⟩ := List.exists_cons_of_ne_nil hne
  rw [htree] at h ⊢
  exact h

/-- `WriteCombinedInterval` succeeds on intervals of the same times, a non-empty tree, rows that
fit and merged counts below `2 ^ 32`, on a directory without faults. -/
theorem Schema.writeCombinedInterval_ok {mem : MemInterval} {static : Interval} {fs : FS}
    (hstart : mem.start = static.start) (hstop : mem.stop = static.stop) (hne : mem.tree ≠ [])
    (hmem : KeysFit s mem.tree) (hstatic : KeysFit s (static.rows s))
    (hcount : ∀ r ∈ SortedMap.mergeWith (combineValues s) mem.tree (static.rows s),
      r.2.count < 2 ^ 32)
    (hfs : fs.NoFaults) : ∃ iv fs', s.writeCombinedInterval mem static fs = (.ok iv, fs') := by
  obtain ⟨iv, fs', h, -, -⟩ := appendRows_freeze_ok hfit (static.generation + 1) mem.start mem.stop
    (SortedMap.mergeWith_ne_nil _ hne _) (keysFit_mergeWith hmem hstatic) hcount hfs
  refine ⟨iv, fs', ?_⟩
  unfold Schema.writeCombinedInterval
  rw [if_neg (by simp [hstart, hstop])]
  obtain ⟨r, rows, htree⟩ := List.exists_cons_of_ne_nil hne
  rw [htree] at h ⊢
  dsimp only
  rw [combineRows_eq]
  exact h

end Fits

/-- The interval writers produce the sorted merge, when the tree is not empty, a row fits a
segment, the counts fit the count column and no file-system call fails. `WriteCombinedInterval`
gives the next generation, whose rows, read back across its segments, are the merge of the
tree and the static rows, strictly increasing, a key present in both carrying `combineValues`
of its two values (the counts added, `MetricBytes.add` of the metrics) and a key of one side its
value unchanged; `WriteMemInterval` gives generation 0 holding the tree. -/
theorem Schema.writeIntervals_merge {s : Schema} (hfit : s.layout.rowSize ≤ s.segmentSize)
    {mem : MemInterval} {static : Interval} {fs : FS} (hfs : fs.NoFaults) (hne : mem.tree ≠ [])
    (hmem : KeysFit s mem.tree) (hsorted : SortedMap.Sorted mem.tree)
    (hmemCount : ∀ r ∈ mem.tree, r.2.count < 2 ^ 32)
    (hstatic : KeysFit s (static.rows s)) (hssorted : SortedMap.Sorted (static.rows s))
    (hstart : mem.start = static.start) (hstop : mem.stop = static.stop)
    (hcount : ∀ r ∈ SortedMap.mergeWith (combineValues s) mem.tree (static.rows s),
      r.2.count < 2 ^ 32) :
    (∃ iv fs', s.writeCombinedInterval mem static fs = (.ok iv, fs') ∧
      iv.Written s fs' (SortedMap.mergeWith (combineValues s) mem.tree (static.rows s)) ∧
      iv.generation = static.generation + 1 ∧ SortedMap.Sorted (iv.rows s) ∧
      ∀ k, SortedMap.find? k (iv.rows s) =
        Option.merge (combineValues s) (SortedMap.find? k mem.tree)
          (SortedMap.find? k (static.rows s))) ∧
    (∃ iv fs', s.writeMemInterval mem fs = (.ok iv, fs') ∧ iv.Written s fs' mem.tree ∧
      iv.generation = 0) := by
  obtain ⟨iv, fs', h⟩ :=
    Schema.writeCombinedInterval_ok hfit hstart hstop hne hmem hstatic hcount hfs
  obtain ⟨hwritten, hgen, -⟩ := Schema.writeCombinedInterval_spec hmem hstatic h
  obtain ⟨ivM, fsM, hM⟩ := Schema.writeMemInterval_ok hfit hne hmem hmemCount hfs
  obtain ⟨hwrittenM, hgenM, -⟩ := Schema.writeMemInterval_spec hmem hM
  refine ⟨⟨iv, fs', h, hwritten, hgen, ?_, fun k => ?_⟩, ⟨ivM, fsM, hM, hwrittenM, hgenM⟩⟩
  · rw [hwritten.rows_eq]
    exact SortedMap.sorted_mergeWith _ hsorted hssorted
  · rw [hwritten.rows_eq]
    exact SortedMap.find?_mergeWith _ hsorted hssorted k

/-- Rows that fit a segment, with counts below `2 ^ 32`, appended to a fresh interval and frozen
on a directory without faults: the run succeeds and the interval holds the rows in order, with
`NumRows` rows and `NumSegments` segments; every segment's length is a positive multiple of
`RowSize` and at most `SegmentSize`, and `n` rows take `⌈n / ⌊SegmentSize / RowSize⌋⌉`
segments. -/
theorem appendRows_freeze_layout {s : Schema} (hfit : s.layout.rowSize ≤ s.segmentSize)
    (generation : Nat) (start stop : ℤ) {rows : List Row} {fs : FS} (hne : rows ≠ [])
    (hlen : KeysFit s rows) (hcount : ∀ r ∈ rows, r.2.count < 2 ^ 32) (hfs : fs.NoFaults) :
    ∃ ivF fs', ((newWriteOnlyInterval s.diskBacked generation start stop).appendRows s rows >>=
        fun iv => iv.freeze s) fs = (.ok ivF, fs') ∧
      ivF.Written s fs' rows ∧ ivF.numRows = rows.length ∧
      ivF.numSegments = ivF.segments.length ∧
      (∀ seg ∈ ivF.segments, 0 < seg.bytes.length ∧ s.layout.rowSize ∣ seg.bytes.length ∧
        seg.bytes.length ≤ s.segmentSize) ∧
      ivF.numSegments = (rows.length + s.segmentSize / s.layout.rowSize - 1) /
        (s.segmentSize / s.layout.rowSize) := by
  obtain ⟨ivF, fs', h, hsegs, hnum⟩ :=
    appendRows_freeze_ok hfit generation start stop hne hlen hcount hfs
  obtain ⟨hwritten, -⟩ := written_of_appendRows_freeze hne hlen h
  exact ⟨ivF, fs', h, hwritten, hwritten.numRows_eq, hwritten.numSegments_eq, hsegs, hnum⟩


/-- A two-row tree for `storedWithOneMetric`, whose 9-byte rows fit its 1000-byte segments. -/
def twoRowTree : MemInterval :=
  ⟨0, 3600 * second, [([0], ⟨1, [1, 0, 0, 0]⟩), ([1], ⟨2, [3, 0, 0, 0]⟩)]⟩

/-- A static interval of the same hour, one segment of two rows; its key `[0]` is also the tree's
first key. -/
def sharedStatic : Interval :=
  ⟨0, 0, 3600 * second,
    [⟨encodeRows [([0], ⟨2, [5, 0, 0, 0]⟩), ([2], ⟨1, [7, 0, 0, 0]⟩)]⟩], 1, 2⟩

/-- An empty directory without faults. -/
def cleanDir : FS := ⟨fun _ => none, fun _ => none, 0⟩

theorem writeIntervals_merge_sharedKey :
    storedWithOneMetric.layout.rowSize ≤ storedWithOneMetric.segmentSize ∧ cleanDir.NoFaults ∧
      twoRowTree.tree ≠ [] ∧ KeysFit storedWithOneMetric twoRowTree.tree ∧
      SortedMap.Sorted twoRowTree.tree ∧ (∀ r ∈ twoRowTree.tree, r.2.count < 2 ^ 32) ∧
      KeysFit storedWithOneMetric (sharedStatic.rows storedWithOneMetric) ∧
      SortedMap.Sorted (sharedStatic.rows storedWithOneMetric) ∧
      twoRowTree.start = sharedStatic.start ∧ twoRowTree.stop = sharedStatic.stop ∧
      (∀ r ∈ SortedMap.mergeWith (combineValues storedWithOneMetric) twoRowTree.tree
        (sharedStatic.rows storedWithOneMetric), r.2.count < 2 ^ 32) ∧
      (∃ iv fs', storedWithOneMetric.writeCombinedInterval twoRowTree sharedStatic cleanDir =
          (.ok iv, fs') ∧
        iv.Written storedWithOneMetric fs' (SortedMap.mergeWith (combineValues storedWithOneMetric)
          twoRowTree.tree (sharedStatic.rows storedWithOneMetric)) ∧
        iv.generation = sharedStatic.generation + 1 ∧
        SortedMap.Sorted (iv.rows storedWithOneMetric) ∧
        ∀ k, SortedMap.find? k (iv.rows storedWithOneMetric) =
          Option.merge (combineValues storedWithOneMetric) (SortedMap.find? k twoRowTree.tree)
            (SortedMap.find? k (sharedStatic.rows storedWithOneMetric))) ∧
      (∃ iv fs', storedWithOneMetric.writeMemInterval twoRowTree cleanDir = (.ok iv, fs') ∧
        iv.Written storedWithOneMetric fs' twoRowTree.tree ∧ iv.generation = 0) := by
  have hfit : storedWithOneMetric.layout.rowSize ≤ storedWithOneMetric.segmentSize := by decide
  have hfs : cleanDir.NoFaults := fun _ => rfl
  have hne : twoRowTree.tree ≠ [] := List.cons_ne_nil _ _
  have hmem : KeysFit storedWithOneMetric twoRowTree.tree := by unfold KeysFit; decide
  have hsorted : SortedMap.Sorted twoRowTree.tree := by unfold SortedMap.Sorted; decide
  have hmemCount : ∀ r ∈ twoRowTree.tree, r.2.count < 2 ^ 32 := by decide
  -- the cursor reads the static segment's two rows back
  have hrows : sharedStatic.rows storedWithOneMetric =
      [([0], ⟨2, [5, 0, 0, 0]⟩), ([2], ⟨1, [7, 0, 0, 0]⟩)] := by decide
  have hstatic : KeysFit storedWithOneMetric (sharedStatic.rows storedWithOneMetric) := by
    rw [hrows]; unfold KeysFit; decide
  have hssorted : SortedMap.Sorted (sharedStatic.rows storedWithOneMetric) := by
    rw [hrows]; unfold SortedMap.Sorted; decide
  -- the shared key `[0]` is combined, the others are kept as they are
  have hmerge : SortedMap.mergeWith (combineValues storedWithOneMetric) twoRowTree.tree
      [([0], ⟨2, [5, 0, 0, 0]⟩), ([2], ⟨1, [7, 0, 0, 0]⟩)] =
      [([0], combineValues storedWithOneMetric ⟨1, [1, 0, 0, 0]⟩ ⟨2, [5, 0, 0, 0]⟩),
        ([1], ⟨2, [3, 0, 0, 0]⟩), ([2], ⟨1, [7, 0, 0, 0]⟩)] := by
    have h00 : compare ([0] : List UInt8) [0] = .eq := rfl
    have h12 : compare ([1] : List UInt8) [2] = .lt := rfl
    simp only [twoRowTree, SortedMap.mergeWith, h00, h12]
  have hcount : ∀ r ∈ SortedMap.mergeWith (combineValues storedWithOneMetric) twoRowTree.tree
      (sharedStatic.rows storedWithOneMetric), r.2.count < 2 ^ 32 := by
    rw [hrows, hmerge]
    decide
  exact ⟨hfit, hfs, hne, hmem, hsorted, hmemCount, hstatic, hssorted, rfl, rfl, hcount,
    Schema.writeIntervals_merge hfit hfs hne hmem hsorted hmemCount hstatic hssorted rfl rfl hcount⟩

/-- `storedWithOneMetric` with 100-byte segments: eleven 9-byte rows to a segment. -/
def smallSegments : Schema := { storedWithOneMetric with segmentSize := 100 }

/-- Twenty rows of distinct keys, counted once, `clicks = 1`. -/
def twentyRows : List Row := (List.range 20).map fun i => ([i.toUInt8], ⟨1, [1, 0, 0, 0]⟩)

theorem appendRows_freeze_layout_twentyRows :
    smallSegments.layout.rowSize ≤ smallSegments.segmentSize ∧
      twentyRows ≠ [] ∧ KeysFit smallSegments twentyRows ∧
      (∀ r ∈ twentyRows, r.2.count < 2 ^ 32) ∧ cleanDir.NoFaults ∧
      ∃ ivF fs', ((newWriteOnlyInterval smallSegments.diskBacked 0 0 (3600 * second)).appendRows
          smallSegments twentyRows >>= fun iv => iv.freeze smallSegments) cleanDir =
          (.ok ivF, fs') ∧
        ivF.Written smallSegments fs' twentyRows ∧ ivF.numRows = twentyRows.length ∧
        ivF.numSegments = ivF.segments.length ∧
        (∀ seg ∈ ivF.segments, 0 < seg.bytes.length ∧
          smallSegments.layout.rowSize ∣ seg.bytes.length ∧
          seg.bytes.length ≤ smallSegments.segmentSize) ∧
        ivF.numSegments = (twentyRows.length +
          smallSegments.segmentSize / smallSegments.layout.rowSize - 1) /
            (smallSegments.segmentSize / smallSegments.layout.rowSize) := by
  have hfit : smallSegments.layout.rowSize ≤ smallSegments.segmentSize := by decide
  have hne : twentyRows ≠ [] := by simp [twentyRows]
  have hmem : KeysFit smallSegments twentyRows := by unfold KeysFit; decide
  have hcount : ∀ r ∈ twentyRows, r.2.count < 2 ^ 32 := by decide
  have hfs : cleanDir.NoFaults := fun _ => rfl
  exact ⟨hfit, hne, hmem, hcount, hfs,
    appendRows_freeze_layout hfit 0 0 (3600 * second) hne hmem hcount hfs⟩

/-! ## Schemas whose rows are wider than a segment -/

/-- On a schema whose rows are wider than its segments, `WriteMemInterval` panics on every
non-empty tree. -/
theorem Schema.writeMemInterval_of_wide {s : Schema} (hwide : s.segmentSize < s.layout.rowSize)
    {mem : MemInterval} (hne : mem.tree ≠ []) (fs : FS) :
    s.writeMemInterval mem fs = (.panic (nilSegmentPanic s.diskBacked), fs) := by
  unfold Schema.writeMemInterval
  obtain ⟨r, rows, htree⟩ := List.exists_cons_of_ne_nil hne
  rw [htree]
  exact GoState.bind_of_panic (appendRows_of_wide hwide _ _ _ _ (List.cons_ne_nil r rows) fs)

/-- On a schema whose rows are wider than its segments, `WriteCombinedInterval` panics on every
non-empty tree. -/
theorem Schema.writeCombinedInterval_of_wide {s : Schema} (hwide : s.segmentSize < s.layout.rowSize)
    {mem : MemInterval} {static : Interval} (hstart : mem.start = static.start)
    (hstop : mem.stop = static.stop) (hne : mem.tree ≠ []) (fs : FS) :
    s.writeCombinedInterval mem static fs = (.panic (nilSegmentPanic s.diskBacked), fs) := by
  unfold Schema.writeCombinedInterval
  rw [if_neg (by simp [hstart, hstop])]
  obtain ⟨r, rows, htree⟩ := List.exists_cons_of_ne_nil hne
  rw [htree]
  dsimp only
  rw [combineRows_eq]
  exact GoState.bind_of_panic (appendRows_of_wide hwide _ _ _ _
    (SortedMap.mergeWith_ne_nil _ (List.cons_ne_nil r rows) _) fs)

/-- An in-memory database with 100-byte segments, no dimension and thirteen `uint64` metrics: a
row takes 4 + 1 + 13 * 8 = 109 bytes. -/
def wideConfig : Config :=
  ⟨"MEMORY", second, 1, 1, ⟨"100", 3600 * second, ("at", "uint32"), [],
    ["a", "b", "c", "d", "e", "f", "g", "h", "i", "j", "k", "l", "m"].map (·, "uint64")⟩⟩

/-- The schema `makeSchema` gives for `wideConfig`. -/
def wideSchema : Schema :=
  ⟨Column.make "at" .uint32, [],
    ["a", "b", "c", "d", "e", "f", "g", "h", "i", "j", "k", "l", "m"].map (Column.make · .uint64),
    100, 3600 * second, false, "", ⟨true, 24 * 3600 * second⟩⟩

/-- `makeSchema` accepts `wideConfig`, whose 109-byte rows do not fit its 100-byte segments; on
the schema it gives, `WriteMemInterval` panics on every non-empty tree, so every flush of a
non-empty memtable does. -/
theorem makeSchema_accepts_wide_rows (parseBytes : String → Go Nat)
    (durationString : ℤ → String) (h100 : parseBytes "100" = .ok 100) :
    wideConfig.makeSchema parseBytes durationString = .ok wideSchema ∧
      wideSchema.segmentSize = 100 ∧ wideSchema.layout.rowSize = 109 ∧
      ∀ mem : MemInterval, mem.tree ≠ [] → ∀ fs, wideSchema.writeMemInterval mem fs =
        (.panic "interface conversion: io.Writer is nil, not *bytes.Buffer", fs) := by
  refine ⟨?_, rfl, by decide, fun mem hne fs => ?_⟩
  · unfold Config.makeSchema
    simp only [wideConfig, h100]
    rfl
  · rw [Schema.writeMemInterval_of_wide (by decide) hne fs]
    rfl

/-- The run of `makeSchema_accepts_wide_rows` with a parser that reads `100` as 100 bytes. -/
theorem wide_rows_panic_on_flush :
    (fun _ => .ok 100 : String → Go Nat) "100" = .ok 100 ∧
      wideConfig.makeSchema (fun _ => .ok 100) (fun _ => "") = .ok wideSchema ∧
      wideSchema.segmentSize = 100 ∧ wideSchema.layout.rowSize = 109 ∧
      ∀ mem : MemInterval, mem.tree ≠ [] → ∀ fs, wideSchema.writeMemInterval mem fs =
        (.panic "interface conversion: io.Writer is nil, not *bytes.Buffer", fs) :=
  ⟨rfl, makeSchema_accepts_wide_rows (fun _ => .ok 100) (fun _ => "") rfl⟩

/-- The interval writers on an empty tree return `io.EOF`: `SeekFirst` finds no first entry. -/
theorem Schema.writeIntervals_of_empty (s : Schema) (static : Interval) (fs : FS) :
    s.writeMemInterval ⟨static.start, static.stop, []⟩ fs = (.error "EOF", fs) ∧
      s.writeCombinedInterval ⟨static.start, static.stop, []⟩ static fs = (.error "EOF", fs) := by
  refine ⟨rfl, ?_⟩
  unfold Schema.writeCombinedInterval
  rw [if_neg (by simp)]
  rfl

/-- A static interval of `storedWithOneMetric` holding one row. -/
def oneRowStatic : Interval :=
  ⟨0, 0, 3600 * second, [⟨encodeRows [([0], ⟨1, [1, 0, 0, 0]⟩)]⟩], 1, 1⟩

/-- Both writers return `io.EOF` on an empty tree, `WriteCombinedInterval` also when the static
interval holds a row; and on `wideSchema` `WriteMemInterval` of one row panics. -/
theorem writeIntervals_reject_empty_and_wide :
    storedWithOneMetric.writeMemInterval ⟨0, 3600 * second, []⟩ cleanDir =
        (.error "EOF", cleanDir) ∧
      oneRowStatic.rows storedWithOneMetric = [([0], ⟨1, [1, 0, 0, 0]⟩)] ∧
      storedWithOneMetric.writeCombinedInterval ⟨0, 3600 * second, []⟩ oneRowStatic cleanDir =
        (.error "EOF", cleanDir) ∧
      wideSchema.writeMemInterval ⟨0, 3600 * second, [([0], ⟨1, List.replicate 104 0⟩)]⟩ cleanDir =
        (.panic "interface conversion: io.Writer is nil, not *bytes.Buffer", cleanDir) := by
  obtain ⟨hmem, hcombined⟩ := Schema.writeIntervals_of_empty storedWithOneMetric oneRowStatic cleanDir
  refine ⟨hmem, by decide, hcombined, ?_⟩
  rw [Schema.writeMemInterval_of_wide (by decide) (List.cons_ne_nil _ _) cleanDir]
  rfl

end Gumshoe
