import Gumshoe.Query
import Gumshoe.Lib.GoMap

/-!
# The two grouping scans agree

`InvokeQuery` groups rows on a dimension in one of two ways (`query.go`). `scanMapGrouping` files
each row under its group value in a Go map; `scanSliceGrouping`, which `useSliceGrouping` picks for
columns of one or two bytes and for string columns with a small dictionary, files it in a slice at
the index the value gives, and the nil rows apart. The slice is the fast path; the map is the
general one.

**Theorem (`sliceGrouping_agrees_mapGrouping`).** When `useSliceGrouping` chooses the slice and the
slice scans of the intervals succeed, the map scans of the same intervals succeed too, and the
combined answers hold the same groups: up to order, the same group values read as integers (none
for the nil group), with the same sums and counts.

Both scans are reduced to one description of the rows. A scan reads the rows of an interval that
pass the filters (`filteredRows`), and the partial of a group is the fold of its rows into a fresh
partial (`groupPartial`). The map scan is the grouping loop of `Lib/GoMap` keyed by
`dimensionKey` (`scanMapGrouping_eq`); the slice scan is the grouping loop into a slice keyed by the
same value read as an integer (`scanSliceGrouping_spec`). On the keys a column of integer type
holds, Go's `==` is equality of those integers (`interfaceEq_iff_toInt?`), so both scans file a
row of an interval under the same group; combining gathers, for each group, the partials of the
intervals in order in both.
-/

namespace Gumshoe

open Bytes

/-! ## Go's `==` on map keys -/

namespace Untyped

theorem interfaceEq_comm (a b : Untyped) : a.interfaceEq b = b.interfaceEq a := by
  cases a <;> cases b <;> simp only [interfaceEq] <;>
    first
    | rfl
    | exact Bool.eq_iff_iff.mpr ⟨fun h => by simp_all, fun h => by simp_all⟩
    | simp only [goEq, order?]
      exact Bool.eq_iff_iff.mpr (by simpa using IEEE.Value.order_eq_some_eq_comm)

theorem interfaceEq_trans {a b c : Untyped} (hab : a.interfaceEq b = true)
    (hbc : b.interfaceEq c = true) : a.interfaceEq c = true := by
  cases a <;> cases b <;> cases c <;> simp only [interfaceEq, reduceCtorEq] at hab hbc ⊢ <;>
    first
    | simp_all
    | simp only [goEq, order?, beq_iff_eq] at hab hbc ⊢
      exact IEEE.Value.order_eq_some_eq_trans hab hbc

/-- Go's `==` on interface values is a map key equality. -/
theorem keyEq_interfaceEq : GoMap.KeyEq interfaceEq := ⟨interfaceEq_comm, interfaceEq_trans⟩

end Untyped

theorem UntypedMap.get?_eq {α : Type} (m : UntypedMap α) (key : Untyped) :
    m.get? key = GoMap.find? Untyped.interfaceEq m key := rfl

/-! ## The keys of a column -/

/-- The keys a grouping on a column of type `t` files rows under: nil, or a value of the type. -/
def IsColumnKey (t : ColType) (k : Untyped) : Prop := k = .nil ∨ ∃ n, k = ofCellBits t n

section Integer

variable {t : ColType} (hint : t.isFloat = false)
include hint

theorem toInt?_ofCellBits_isSome (n : Nat) : (ofCellBits t n).toInt?.isSome := by
  cases t <;> simp_all [ColType.isFloat, ofCellBits, Untyped.toInt?]

/-- On the keys of an integer column, Go's `==` compares the integers, and nil only equals nil. -/
theorem interfaceEq_iff_toInt? {a b : Untyped} (ha : IsColumnKey t a) (hb : IsColumnKey t b) :
    a.interfaceEq b = true ↔ a.toInt? = b.toInt? := by
  rcases ha with rfl | ⟨n, rfl⟩ <;> rcases hb with rfl | ⟨m, rfl⟩
  · simp [Untyped.interfaceEq, Untyped.toInt?]
  · have := toInt?_ofCellBits_isSome hint m
    cases t <;> simp_all [ColType.isFloat, ofCellBits, Untyped.toInt?, Untyped.interfaceEq]
  · have := toInt?_ofCellBits_isSome hint n
    cases t <;> simp_all [ColType.isFloat, ofCellBits, Untyped.toInt?, Untyped.interfaceEq]
  · cases t <;> simp only [ColType.isFloat, Bool.true_eq_false] at hint <;>
      simp only [ofCellBits, Untyped.toInt?, Untyped.interfaceEq, beq_iff_eq, Option.some.injEq,
        Nat.cast_inj, UInt8.toNat_inj, UInt16.toNat_inj, UInt32.toNat_inj, UInt64.toNat_inj,
        Int8.toInt_inj, Int16.toInt_inj, Int32.toInt_inj, Int64.toInt_inj]

/-- A value `==` to the key of an integer column is that key. -/
theorem eq_of_interfaceEq {a b : Untyped} (hb : IsColumnKey t b) (h : a.interfaceEq b = true) :
    a = b := by
  rcases hb with rfl | ⟨n, rfl⟩
  · cases a <;> simp_all [Untyped.interfaceEq]
  · cases t <;> cases a <;> simp_all [ColType.isFloat, ofCellBits, Untyped.interfaceEq]

end Integer

/-- A value of a type one or two bytes wide, read as an integer, is below `2 ^ 16`. -/
theorem toInt?_ofCellBits_lt {t : ColType} (hw : typeWidths t ≤ 2) {n : Nat} {v : ℤ}
    (h : (ofCellBits t n).toInt? = some v) : v < 2 ^ 16 := by
  cases t <;> simp only [typeWidths] at hw <;> (try omega) <;>
    simp only [ofCellBits, Untyped.toInt?, Option.some.injEq] at h <;> subst h
  · have := UInt8.toNat_lt (UInt8.ofNat n)
    omega
  · have := Int8.toInt_lt (Int8.ofNat n)
    omega
  · have := UInt16.toNat_lt (UInt16.ofNat n)
    omega
  · have := Int16.toInt_lt (Int16.ofNat n)
    omega

/-- The slots `scanSliceGrouping` makes for the column `col`: one per dictionary entry of a string
column, else one per value of its bytes. -/
def sliceSize (st : StaticTable) (index : Nat) (col : DimensionColumn) : Nat :=
  if col.string then
    match st.dimensionTable index with
    | .ok table => table.size
    | _ => 0
  else 2 ^ (8 * col.width)

/-- When `useSliceGrouping` picks the slice, the grouping has no transform and is not on the
timestamp, and its column is one or two bytes wide, or a string column whose dictionary has at
most `sliceGroupingSizeLimit` entries. -/
theorem useSliceGrouping_eq_ok_true {s : Schema} {st : StaticTable} {grouping : GroupingParams}
    (h : useSliceGrouping s st grouping = .ok true) :
    grouping.transformFunc = none ∧ grouping.onTimestampColumn = false ∧
      ∃ col, s.dimensionColumn grouping.columnIndex = .ok col ∧
        (col.width ≤ 2 ∨ col.string = true ∧ ∃ table,
          st.dimensionTable grouping.columnIndex = .ok table ∧ table.size ≤ 500000) := by
  unfold useSliceGrouping at h
  split at h
  · cases h
  · rename_i htr
    split at h
    · cases h
    · rename_i hts
      obtain ⟨col, hcol, h⟩ := Go.bind_eq_ok.mp h
      refine ⟨Option.not_isSome_iff_eq_none.mp htr, by simpa using hts, col, hcol, ?_⟩
      split at h
      · exact .inl ‹_›
      · split at h
        · obtain ⟨table, htable, h⟩ := Go.bind_eq_ok.mp h
          exact .inr ⟨‹_›, table, htable, by simpa using h⟩
        · cases h

/-! ## What a grouped scan reads -/

section Scans

variable (s : Schema) (params : ScanParams)

/-- The rows of an interval that pass the row filters, in the order a scan reads them. -/
def filteredRows (interval : Interval) : List (List UInt8) :=
  (intervalRows s interval).filter fun row => params.filterFuncs.all (· row)

/-- The partial of a group of rows: none for no rows, else the rows added to a fresh partial, as
the scans build it when they meet the group's first row. -/
def groupPartial (rows : List (List UInt8)) : Option ScanPartial :=
  rows.foldl (fun part row => some ((part.getD (makeScanPartial params)).addRow s params row)) none

/-- The key `scanMapGrouping` files a row under, grouping on the dimension `index` of type `typ`
without a transform: nil for a nil cell, else the cell's value. -/
def dimensionKey (index : Nat) (typ : ColType) (row : List UInt8) : Untyped :=
  if rowNil row (dimensionCell s index).1 (dimensionCell s index).2.1 then .nil
  else numericCellValue row (dimensionCell s index).2.2 typ

/-- The rows of an interval that a grouping on the dimension `index` of type `typ` files under the
group `o`: the value read as an integer, none for nil. -/
def groupRows (index : Nat) (typ : ColType) (interval : Interval) (o : Option ℤ) :
    List (List UInt8) :=
  (filteredRows s params interval).filter fun row => (dimensionKey s index typ row).toInt? = o

/-- The slot of a non-nil row in `scanSliceGrouping`'s slice. -/
def sliceIndex (index : Nat) (typ : ColType) (row : List UInt8) : Nat :=
  (makeGetDimensionValueAsIntFuncGen typ row (dimensionCell s index).2.2).toNat

/-- The body of `scanSliceGrouping`'s row loop for a row whose index fits the slice. -/
def sliceStep (index : Nat) (typ : ColType) (acc : SliceGroupPartials) (row : List UInt8) :
    SliceGroupPartials :=
  if params.filterFuncs.all (· row) then
    if rowNil row (dimensionCell s index).1 (dimensionCell s index).2.1 then
      { acc with
        nilPartial := some ((acc.nilPartial.getD (makeScanPartial params)).addRow s params row) }
    else
      { acc with
        slicePartials := GoMap.slotStep (sliceIndex s index typ) (ScanPartial.addRow s params)
          (makeScanPartial params) acc.slicePartials row }
  else acc

/-- The body of `scanSliceGrouping`'s row loop, for a slice of `size` slots: a row whose index
does not fit panics. -/
def sliceScanStep (index : Nat) (typ : ColType) (size : Nat) (acc : SliceGroupPartials)
    (row : List UInt8) : Go SliceGroupPartials :=
  if params.filterFuncs.all (· row) then
    if rowNil row (dimensionCell s index).1 (dimensionCell s index).2.1 then
      .ok { acc with
        nilPartial := some ((acc.nilPartial.getD (makeScanPartial params)).addRow s params row) }
    else
      let value := makeGetDimensionValueAsIntFuncGen typ row (dimensionCell s index).2.2
      if 0 ≤ value ∧ value < size then
        .ok { acc with
          slicePartials := acc.slicePartials.modify value.toNat fun slot =>
            some ((slot.getD (makeScanPartial params)).addRow s params row) }
      else .panic (indexOutOfRange value size)
  else .ok acc

/-- The partials of the group `o` over a list of intervals, in order: one for each interval with
rows in the group. -/
def groupPartials (index : Nat) (typ : ColType) (intervals : List (ℤ × Interval))
    (o : Option ℤ) : List ScanPartial :=
  intervals.filterMap fun iv => groupPartial s params (groupRows s params index typ iv.2 o)

/-- The maps the map scans of a list of intervals build, grouping on the dimension `index` of type
`typ` without a transform. -/
def groupMaps (index : Nat) (typ : ColType) (intervals : List (ℤ × Interval)) :
    List (UntypedMap ScanPartial) :=
  intervals.map fun iv => (filteredRows s params iv.2).foldl
    (GoMap.groupStep Untyped.interfaceEq (dimensionKey s index typ) (ScanPartial.addRow s params)
      (makeScanPartial params)) []

variable {s params}

theorem isColumnKey_dimensionKey (index : Nat) (typ : ColType) (row : List UInt8) :
    IsColumnKey typ (dimensionKey s index typ row) := by
  unfold dimensionKey
  split
  · exact .inl rfl
  · exact .inr ⟨_, rfl⟩

theorem groupPartial_eq_none_iff {rows : List (List UInt8)} :
    groupPartial s params rows = none ↔ rows = [] := by
  rw [groupPartial, GoMap.foldl_some]
  split <;> simp_all

/-- The map scan of a dimension grouping without transform is the grouping loop over the filtered
rows, keyed by `dimensionKey`. -/
theorem scanMapGrouping_eq {grouping : GroupingParams} {col : DimensionColumn} {timestamp : ℤ}
    {interval : Interval} (hts : grouping.onTimestampColumn = false)
    (htr : grouping.transformFunc = none) (hcol : s.dimensionColumn grouping.columnIndex = .ok col)
    (hwhole : WholeRows s interval) :
    scanMapGrouping s params grouping timestamp interval =
      .ok ((filteredRows s params interval).foldl
        (GoMap.groupStep Untyped.interfaceEq (dimensionKey s grouping.columnIndex col.type)
          (ScanPartial.addRow s params) (makeScanPartial params)) []) := by
  simp only [scanMapGrouping, hts, hcol, htr, Bool.false_eq_true, if_false, Go.pure_eq,
    Functor.map, Go.bind, Function.comp, Go.ok_bind]
  rw [forEachSegmentRow_eq_foldlM hwhole, filteredRows, List.foldl_filter]
  refine Go.foldlM_eq_ok_foldl (fun acc row => ?_) _ _
  split <;> rfl

/-- The loop of `sliceStep`s keeps the nil rows' partial and the slice apart. -/
theorem foldl_sliceStep (index : Nat) (typ : ColType) :
    ∀ (rows : List (List UInt8)) (acc : SliceGroupPartials),
    (rows.foldl (sliceStep s params index typ) acc).nilPartial =
        (rows.filter fun row => params.filterFuncs.all (· row) &&
          rowNil row (dimensionCell s index).1 (dimensionCell s index).2.1).foldl
          (fun part row => some ((part.getD (makeScanPartial params)).addRow s params row))
          acc.nilPartial ∧
      (rows.foldl (sliceStep s params index typ) acc).slicePartials =
        (rows.filter fun row => params.filterFuncs.all (· row) &&
          !rowNil row (dimensionCell s index).1 (dimensionCell s index).2.1).foldl
          (GoMap.slotStep (sliceIndex s index typ) (ScanPartial.addRow s params)
            (makeScanPartial params)) acc.slicePartials
  | [], _ => ⟨rfl, rfl⟩
  | row :: rows, acc => by
    rw [List.foldl_cons, List.filter_cons, List.filter_cons]
    obtain ⟨hnil, hslice⟩ := foldl_sliceStep index typ rows (sliceStep s params index typ acc row)
    rw [hnil, hslice]
    unfold sliceStep
    by_cases hf : params.filterFuncs.all (· row) = true <;>
      by_cases hn : rowNil row (dimensionCell s index).1 (dimensionCell s index).2.1 = true <;>
      simp [hf, hn]

/-- A non-nil key read as an integer is the value the slice scan indexes by. -/
theorem toInt?_dimensionKey {index : Nat} {typ : ColType} (hint : typ.isFloat = false)
    (row : List UInt8) :
    (dimensionKey s index typ row).toInt? =
      if rowNil row (dimensionCell s index).1 (dimensionCell s index).2.1 then none
      else some (makeGetDimensionValueAsIntFuncGen typ row (dimensionCell s index).2.2) := by
  unfold dimensionKey makeGetDimensionValueAsIntFuncGen
  split
  · rfl
  · exact (Option.some_get (toInt?_ofCellBits_isSome hint _)).symm.trans
      (congrArg some (Option.get_eq_getD _))

/-- A successful step of the slice scan is `sliceStep`, on a row whose index fits. -/
theorem sliceScanStep_eq_ok {index : Nat} {typ : ColType} {size : Nat}
    {acc acc' : SliceGroupPartials} {row : List UInt8}
    (h : sliceScanStep s params index typ size acc row = .ok acc') :
    (params.filterFuncs.all (· row) = true →
        rowNil row (dimensionCell s index).1 (dimensionCell s index).2.1 = false →
        0 ≤ makeGetDimensionValueAsIntFuncGen typ row (dimensionCell s index).2.2 ∧
          makeGetDimensionValueAsIntFuncGen typ row (dimensionCell s index).2.2 < size) ∧
      acc' = sliceStep s params index typ acc row := by
  unfold sliceScanStep at h
  unfold sliceStep
  dsimp only at h
  split_ifs at h ⊢ with hf hn hfit
  · cases h
    exact ⟨fun _ hn' => by simp_all, rfl⟩
  · cases h
    exact ⟨fun _ _ => hfit, rfl⟩
  · cases h
    exact ⟨fun hf' => absurd hf' hf, rfl⟩

/-- A successful run of the slice scan's loop over whole rows: a slot per index, each the partial
of its group, the nil rows' partial that of the nil group, and every filtered row's index within
the slice. -/
theorem sliceScanLoop_spec {index : Nat} {typ : ColType} {size : Nat} {interval : Interval}
    {sp : SliceGroupPartials} (hint : typ.isFloat = false) (hwhole : WholeRows s interval)
    (h : forEachSegmentRow s (sliceScanStep s params index typ size)
      ⟨List.replicate size none, none⟩ interval.segments = .ok sp) :
    sp.slicePartials.length = size ∧
      (∀ i < size, sp.slicePartials.getD i none =
        groupPartial s params (groupRows s params index typ interval (some i))) ∧
      sp.nilPartial = groupPartial s params (groupRows s params index typ interval none) ∧
      ∀ row ∈ filteredRows s params interval, ∀ i,
        (dimensionKey s index typ row).toInt? = some i → 0 ≤ i ∧ i < size := by
  rw [forEachSegmentRow_eq_foldlM hwhole] at h
  obtain ⟨hfit, rfl⟩ := Go.foldlM_eq_ok_guard (fun _ _ _ hstep => sliceScanStep_eq_ok hstep) h
  obtain ⟨hnil, hslice⟩ := foldl_sliceStep index typ (intervalRows s interval)
    ⟨List.replicate size none, none⟩
  refine ⟨?_, fun i hi => ?_, ?_, fun row hrow i hi => ?_⟩
  · rw [hslice, GoMap.length_foldl_slotStep, List.length_replicate]
  · rw [hslice, GoMap.getD_foldl_slotStep _ _ _ _ _ (by simpa using hi), groupPartial, groupRows,
      filteredRows, List.filter_filter, List.filter_filter]
    simp only [List.getD_eq_getElem?_getD, List.getElem?_replicate, hi, if_true, Option.getD_some]
    congr 1
    apply List.filter_congr
    intro row hrow
    -- a filtered row of the group `some i` is not nil, and its slot is `i`
    rw [toInt?_dimensionKey hint]
    by_cases hf : params.filterFuncs.all (· row) = true
    · by_cases hn : rowNil row (dimensionCell s index).1 (dimensionCell s index).2.1 = true
      · simp [hf, hn]
      · have hv := hfit row hrow hf (by simpa using hn)
        simp only [hf, hn, sliceIndex, Bool.false_eq_true, if_false, Option.some.injEq,
          Bool.not_false, Bool.and_true]
        apply Bool.eq_iff_iff.mpr
        constructor
        · intro hi'
          apply decide_eq_true
          rw [← of_decide_eq_true hi', Int.toNat_of_nonneg hv.1]
        · intro hi'
          apply decide_eq_true
          rw [of_decide_eq_true hi', Int.toNat_natCast]
    · simp [hf]
  · rw [hnil, groupPartial, groupRows, filteredRows, List.filter_filter]
    congr 1
    apply List.filter_congr
    intro row _
    rw [toInt?_dimensionKey hint]
    split <;> simp_all
  · obtain ⟨hrow, hf⟩ := List.mem_filter.mp hrow
    rw [toInt?_dimensionKey hint] at hi
    split at hi
    · cases hi
    · rename_i hn
      rw [Option.some.injEq] at hi
      subst hi
      exact hfit row hrow hf (by simpa using hn)

/-- The slice scan of a dimension grouping: the slice has `sliceSize` slots, each the partial of
its group, the nil rows' partial is that of the nil group, and the index of every filtered row fits
the slice. -/
theorem scanSliceGrouping_spec {st : StaticTable} {grouping : GroupingParams}
    {col : DimensionColumn} {interval : Interval} {sp : SliceGroupPartials}
    (hint : col.type.isFloat = false) (hcol : s.dimensionColumn grouping.columnIndex = .ok col)
    (hwhole : WholeRows s interval) (h : scanSliceGrouping s st params grouping interval = .ok sp) :
    sp.slicePartials.length = sliceSize st grouping.columnIndex col ∧
      (∀ i < sliceSize st grouping.columnIndex col, sp.slicePartials.getD i none =
        groupPartial s params (groupRows s params grouping.columnIndex col.type interval (some i))) ∧
      sp.nilPartial =
        groupPartial s params (groupRows s params grouping.columnIndex col.type interval none) ∧
      ∀ row ∈ filteredRows s params interval, ∀ i,
        (dimensionKey s grouping.columnIndex col.type row).toInt? = some i →
          0 ≤ i ∧ i < sliceSize st grouping.columnIndex col := by
  rw [scanSliceGrouping, hcol, Go.ok_bind] at h
  dsimp only at h
  split at h
  · -- a string column: a slot per dictionary entry
    rename_i hstr
    obtain ⟨table, htable, h⟩ := Go.bind_eq_ok.mp h
    rw [Go.pure_eq, Go.ok_bind] at h
    split_ifs at h
    have hsize : sliceSize st grouping.columnIndex col = table.size := by
      rw [sliceSize, if_pos hstr, htable]
    rw [hsize]
    exact sliceScanLoop_spec hint hwhole h
  · rename_i hstr
    split at h
    · -- a column of one or two bytes: a slot per value
      rw [Go.pure_eq, Go.ok_bind] at h
      split_ifs at h
      have hsize : sliceSize st grouping.columnIndex col = 2 ^ (8 * col.width) := by
        rw [sliceSize, if_neg hstr]
      rw [hsize]
      exact sliceScanLoop_spec hint hwhole h
    · simp at h

/-- The slice scans of a list of intervals, when they all succeed: slices of `sliceSize` slots,
the nil partials and each slot's partials those of the groups, and the index of every row within
the slices. -/
theorem sliceScans_spec {st : StaticTable} {grouping : GroupingParams} {col : DimensionColumn}
    (hint : col.type.isFloat = false) (hcol : s.dimensionColumn grouping.columnIndex = .ok col) :
    ∀ {intervals : List (ℤ × Interval)} {partials : List SliceGroupPartials},
    (∀ iv ∈ intervals, WholeRows s iv.2) →
    intervals.mapM (fun (_, interval) => scanSliceGrouping s st params grouping interval) =
      .ok partials →
    (∀ sp ∈ partials, sp.slicePartials.length = sliceSize st grouping.columnIndex col) ∧
      partials.filterMap (·.nilPartial) =
        groupPartials s params grouping.columnIndex col.type intervals none ∧
      (∀ i < sliceSize st grouping.columnIndex col,
        partials.filterMap (·.slicePartials.getD i none) =
          groupPartials s params grouping.columnIndex col.type intervals (some i)) ∧
      ∀ iv ∈ intervals, ∀ row ∈ filteredRows s params iv.2, ∀ i,
        (dimensionKey s grouping.columnIndex col.type row).toInt? = some i →
          0 ≤ i ∧ i < sliceSize st grouping.columnIndex col
  | [], partials, _, h => by
    rw [List.mapM_nil, Go.pure_eq, Go.ok.injEq] at h
    subst h
    simp [groupPartials]
  | iv :: intervals, partials, hwhole, h => by
    rw [List.mapM_cons] at h
    obtain ⟨sp, hsp, h⟩ := Go.bind_eq_ok.mp h
    obtain ⟨rest, hrest, h⟩ := Go.bind_eq_ok.mp h
    rw [Go.pure_eq, Go.ok.injEq] at h
    subst h
    -- the first interval by the scan's spec, the others by induction
    obtain ⟨hlen, hslots, hnil, hfits⟩ :=
      scanSliceGrouping_spec hint hcol (hwhole iv List.mem_cons_self) hsp
    obtain ⟨hlen', hnil', hslots', hfits'⟩ :=
      sliceScans_spec hint hcol (fun iv' hiv' => hwhole iv' (List.mem_cons_of_mem iv hiv')) hrest
    refine ⟨?_, ?_, fun i hi => ?_, ?_⟩
    · exact List.forall_mem_cons.mpr ⟨hlen, hlen'⟩
    · rw [List.filterMap_cons, groupPartials, List.filterMap_cons, ← groupPartials, ← hnil', hnil]
    · rw [List.filterMap_cons, groupPartials, List.filterMap_cons, ← groupPartials,
        ← hslots' i hi, hslots i hi]
    · exact List.forall_mem_cons.mpr ⟨hfits, hfits'⟩

/-- A key has partials in the intervals exactly when a filtered row of one of them has it. -/
theorem groupPartials_ne_nil_iff {index : Nat} {typ : ColType} {intervals : List (ℤ × Interval)}
    {o : Option ℤ} :
    groupPartials s params index typ intervals o ≠ [] ↔
      ∃ iv ∈ intervals, ∃ row ∈ filteredRows s params iv.2,
        (dimensionKey s index typ row).toInt? = o := by
  simp only [groupPartials, ne_eq, List.filterMap_eq_nil_iff, groupPartial_eq_none_iff, groupRows,
    List.filter_eq_nil_iff, decide_eq_true_eq, not_forall, not_not, exists_prop]

/-- The entry of a key in the map the map scan builds over `rows`: the partial of the rows of its
group. -/
theorem get?_foldl_groupStep {index : Nat} {typ : ColType} (hint : typ.isFloat = false)
    (rows : List (List UInt8)) {k : Untyped} (hk : IsColumnKey typ k) :
    UntypedMap.get? (rows.foldl (GoMap.groupStep Untyped.interfaceEq (dimensionKey s index typ)
        (ScanPartial.addRow s params) (makeScanPartial params)) []) k =
      groupPartial s params (rows.filter fun row => (dimensionKey s index typ row).toInt? = k.toInt?) := by
  rw [UntypedMap.get?_eq, GoMap.find?_foldl_groupStep Untyped.keyEq_interfaceEq, GoMap.find?_nil,
    groupPartial]
  congr 1
  apply List.filter_congr
  intro row _
  exact Bool.eq_iff_iff.mpr ((interfaceEq_iff_toInt? hint (isColumnKey_dimensionKey _ _ _) hk).trans
    decide_eq_true_iff.symm)

/-- On the keys of an integer column, the lookups of a key in the map scans of the intervals give
the partials of its group. -/
theorem filterMap_get?_groupMaps {index : Nat} {typ : ColType} (hint : typ.isFloat = false)
    (intervals : List (ℤ × Interval)) {k : Untyped} (hk : IsColumnKey typ k) :
    (groupMaps s params index typ intervals).filterMap (·.get? k) =
      groupPartials s params index typ intervals k.toInt? := by
  rw [groupMaps, List.filterMap_map, groupPartials]
  apply List.filterMap_congr
  intro iv _
  exact get?_foldl_groupStep hint _ hk

/-- The keys `combineMapGrouping` gathers from the map scans of the intervals are the keys of their
filtered rows. -/
theorem mem_keys_gatherKeys_groupMaps {index : Nat} {typ : ColType} (hint : typ.isFloat = false)
    {intervals : List (ℤ × Interval)} {k : Untyped} :
    k ∈ (GoMap.gatherKeys Untyped.interfaceEq (groupMaps s params index typ intervals)).map (·.1) ↔
      ∃ iv ∈ intervals, ∃ row ∈ filteredRows s params iv.2, dimensionKey s index typ row = k := by
  constructor
  · intro hk
    obtain ⟨m, hm, hk⟩ := GoMap.mem_keys_gatherKeys hk
    obtain ⟨iv, hiv, rfl⟩ := List.mem_map.mp hm
    rcases GoMap.mem_keys_foldl_groupStep _ _ _ _ [] hk with hk | ⟨row, hrow, rfl⟩
    · simp at hk
    · exact ⟨iv, hiv, row, hrow, rfl⟩
  · rintro ⟨iv, hiv, row, hrow, rfl⟩
    -- the row's own map finds its key, so the gathered keys hold one `==` to it, which is it
    have hrows : groupRows s params index typ iv.2 (dimensionKey s index typ row).toInt? ≠ [] :=
      List.ne_nil_of_mem (List.mem_filter.mpr ⟨hrow, by simp⟩)
    have hfound : (GoMap.find? Untyped.interfaceEq
        (GoMap.gatherKeys Untyped.interfaceEq (groupMaps s params index typ intervals))
        (dimensionKey s index typ row)).isSome := by
      rw [GoMap.isSome_find?_gatherKeys Untyped.keyEq_interfaceEq, List.any_eq_true]
      refine ⟨_, List.mem_map_of_mem hiv, ?_⟩
      rw [← UntypedMap.get?_eq, get?_foldl_groupStep hint _ (isColumnKey_dimensionKey _ _ _)]
      exact Option.isSome_iff_ne_none.mpr fun h => hrows (groupPartial_eq_none_iff.mp h)
    obtain ⟨u, hu⟩ := Option.isSome_iff_exists.mp hfound
    obtain ⟨e, he, heq, -⟩ := GoMap.exists_of_find?_eq_some _ hu
    exact List.mem_map.mpr ⟨e, he, eq_of_interfaceEq hint (isColumnKey_dimensionKey _ _ _) heq⟩

end Scans

/-! ## Combining the groups -/

/-- What an answer row shows of its group: the group value read as an integer (none for the nil
group), the sums and the count. -/
def RowAggregate.view (a : RowAggregate) : Option ℤ × List Untyped × UInt32 :=
  (a.groupByValue.toInt?, a.sums, a.count)

/-- The sums and the count of combining `parts`: the group value takes no part in them. -/
def combined (params : ScanParams) (parts : List ScanPartial) : List Untyped × UInt32 :=
  ((combineScanPartials params parts .nil).sums, (combineScanPartials params parts .nil).count)

theorem view_combineScanPartials (params : ScanParams) (parts : List ScanPartial) (g : Untyped) :
    (combineScanPartials params parts g).view = (g.toInt?, combined params parts) := rfl

section Combine

variable (params : ScanParams)

/-- The rows of `combineSliceGrouping`, as views: the nil group if some interval has one, and
each index some interval has a partial for. -/
theorem mem_view_combineSliceGrouping {partials : List SliceGroupPartials} {N : Nat}
    (hlen : ∀ sp ∈ partials, sp.slicePartials.length = N)
    (hbound : ∀ i < N, partials.filterMap (·.slicePartials.getD i none) ≠ [] → i < 2 ^ 63)
    (v : Option ℤ × List Untyped × UInt32) :
    v ∈ (combineSliceGrouping params partials).map RowAggregate.view ↔
      (partials.filterMap (·.nilPartial) ≠ [] ∧
          v = (none, combined params (partials.filterMap (·.nilPartial)))) ∨
        ∃ i < N, partials.filterMap (·.slicePartials.getD i none) ≠ [] ∧
          v = (some (i : ℤ), combined params (partials.filterMap (·.slicePartials.getD i none))) := by
  unfold combineSliceGrouping
  cases partials with
  | nil => simp
  | cons first rest =>
    have hN : first.slicePartials.length = N := hlen first List.mem_cons_self
    simp only [List.map_append, List.mem_append]
    apply or_congr
    · split
      · rename_i hnil
        simp only [List.map_nil, List.not_mem_nil, false_iff, not_and]
        exact fun hne => absurd (List.isEmpty_iff.mp hnil) hne
      · rename_i hnil
        simp only [List.map_cons, List.map_nil, List.mem_singleton, view_combineScanPartials]
        exact ⟨fun hv => ⟨fun h => hnil (List.isEmpty_iff.mpr h), hv⟩, fun h => h.2⟩
    · simp only [List.map_filterMap, List.mem_filterMap, List.mem_range, hN]
      apply exists_congr
      intro i
      apply and_congr_right
      intro hi
      split
      · rename_i hempty
        simp only [Option.map_none, reduceCtorEq, false_iff, not_and]
        exact fun hne => absurd (List.isEmpty_iff.mp hempty) hne
      · rename_i hempty
        have hne : List.filterMap (fun x => x.slicePartials.getD i none) (first :: rest) ≠ [] :=
          fun h => hempty (List.isEmpty_iff.mpr h)
        -- the index fits an `int`, so it reads back as itself
        have hint : (Untyped.int (Int64.ofNat i)).toInt? = some (i : ℤ) := by
          rw [Untyped.toInt?, Int64.toInt_ofNat_of_lt (hbound i hi hne)]
        simp only [Option.map_some, Option.some.injEq, view_combineScanPartials, hint]
        exact ⟨fun hv => ⟨hne, hv.symm⟩, fun h => h.2.symm⟩

/-- `combineSliceGrouping` gives each group one row. -/
theorem nodup_view_combineSliceGrouping {partials : List SliceGroupPartials} {N : Nat}
    (hlen : ∀ sp ∈ partials, sp.slicePartials.length = N)
    (hbound : ∀ i < N, partials.filterMap (·.slicePartials.getD i none) ≠ [] → i < 2 ^ 63) :
    ((combineSliceGrouping params partials).map RowAggregate.view).Nodup := by
  unfold combineSliceGrouping
  cases partials with
  | nil => simp
  | cons first rest =>
    -- an index row shows its index as its group
    have hindex : ∀ i b,
        Option.map RowAggregate.view
          (if (List.filterMap (fun x => x.slicePartials.getD i none) (first :: rest)).isEmpty then
            none
          else some (combineScanPartials params
            (List.filterMap (fun x => x.slicePartials.getD i none) (first :: rest))
            (.int (Int64.ofNat i)))) = some b → b.1 = some (i : ℤ) := by
      intro i b hb
      split at hb
      · cases hb
      · rename_i hempty
        have hne := fun h => hempty (List.isEmpty_iff.mpr h)
        -- some interval has a partial at `i`, so `i` is below the slices' length
        obtain ⟨part, hpart⟩ := List.exists_mem_of_ne_nil _ hne
        obtain ⟨sp, hsp, hslot⟩ := List.mem_filterMap.mp hpart
        have hi : i < N := by
          rw [← hlen sp hsp]
          by_contra hout
          rw [List.getD_eq_getElem?_getD, List.getElem?_eq_none (by omega)] at hslot
          cases hslot
        simp only [Option.map_some, Option.some.injEq] at hb
        rw [← hb, view_combineScanPartials, Untyped.toInt?,
          Int64.toInt_ofNat_of_lt (hbound i hi hne)]
    rw [List.map_append, List.nodup_append]
    refine ⟨?_, ?_, ?_⟩
    · split <;> simp
    · rw [List.map_filterMap]
      refine List.Nodup.filterMap (fun i i' b hb hb' => ?_) List.nodup_range
      exact_mod_cast Option.some.inj ((hindex i b hb).symm.trans (hindex i' b hb'))
    · intro a ha b hb hab
      subst hab
      rw [List.map_filterMap, List.mem_filterMap] at hb
      obtain ⟨i, -, hb⟩ := hb
      have := hindex i a hb
      split at ha <;> simp_all [view_combineScanPartials, Untyped.toInt?]

/-- The row `combineMapGrouping` makes of a key shows the key's group. -/
theorem view_combineMapGrouping_fst {ms : List (UntypedMap ScanPartial)} {k : Untyped}
    {v : Option ℤ × List Untyped × UInt32}
    (hv : v ∈ Option.map RowAggregate.view (if (ms.filterMap (·.get? k)).isEmpty then none
      else some (combineScanPartials params (ms.filterMap (·.get? k)) k))) :
    v.1 = k.toInt? := by
  split at hv
  · cases hv
  · cases hv
    rfl

end Combine

/-! ## The two scans agree -/

section Agreement

variable {s : Schema} {params : ScanParams}

/-- The rows `combineMapGrouping` makes of the map scans of the intervals, as views: one for each
group with partials, showing its value read as an integer. -/
theorem mem_view_combineMapGrouping {index : Nat} {typ : ColType} (hint : typ.isFloat = false)
    {intervals : List (ℤ × Interval)} (v : Option ℤ × List Untyped × UInt32) :
    v ∈ (combineMapGrouping params (groupMaps s params index typ intervals)).map RowAggregate.view ↔
      ∃ o, groupPartials s params index typ intervals o ≠ [] ∧
        v = (o, combined params (groupPartials s params index typ intervals o)) := by
  unfold combineMapGrouping
  simp only [List.mem_map, List.mem_filterMap]
  constructor
  · rintro ⟨a, ⟨⟨k, u⟩, hk, ha⟩, rfl⟩
    obtain ⟨iv, hiv, row, hrow, rfl⟩ :=
      (mem_keys_gatherKeys_groupMaps hint).mp (List.mem_map.mpr ⟨_, hk, rfl⟩)
    rw [filterMap_get?_groupMaps hint _ (isColumnKey_dimensionKey _ _ _)] at ha
    split at ha
    · cases ha
    · rename_i hne
      cases ha
      exact ⟨_, fun h => hne (List.isEmpty_iff.mpr h), view_combineScanPartials _ _ _⟩
  · rintro ⟨o, hne, rfl⟩
    -- a row of the group gives a gathered key, whose row this is
    obtain ⟨iv, hiv, row, hrow, rfl⟩ := groupPartials_ne_nil_iff.mp hne
    obtain ⟨⟨k, u⟩, hk, hkey⟩ := List.mem_map.mp
      ((mem_keys_gatherKeys_groupMaps hint).mpr ⟨iv, hiv, row, hrow, rfl⟩)
    dsimp only at hkey
    subst hkey
    refine ⟨_, ⟨(dimensionKey s index typ row, u), hk, ?_⟩, view_combineScanPartials _ _ _⟩
    rw [filterMap_get?_groupMaps hint _ (isColumnKey_dimensionKey _ _ _)]
    exact if_neg fun h => hne (List.isEmpty_iff.mp h)

/-- `combineMapGrouping` gives each group of the map scans one row. -/
theorem nodup_view_combineMapGrouping {index : Nat} {typ : ColType} (hint : typ.isFloat = false)
    (intervals : List (ℤ × Interval)) :
    ((combineMapGrouping params (groupMaps s params index typ intervals)).map
      RowAggregate.view).Nodup := by
  unfold combineMapGrouping
  rw [List.map_filterMap]
  -- the gathered keys are pairwise unequal keys of the column, so their groups differ
  have hkeys := List.pairwise_map.mp
    (@GoMap.pairwise_gatherKeys _ _ Untyped.interfaceEq (groupMaps s params index typ intervals))
  have hcolumn : ∀ e ∈ GoMap.gatherKeys Untyped.interfaceEq (groupMaps s params index typ intervals),
      IsColumnKey typ e.1 := by
    intro e he
    obtain ⟨iv, -, row, -, hrow⟩ := (mem_keys_gatherKeys_groupMaps hint).mp (List.mem_map_of_mem he)
    rw [← hrow]
    exact isColumnKey_dimensionKey _ _ _
  have hgroups : (GoMap.gatherKeys Untyped.interfaceEq (groupMaps s params index typ intervals)).Pairwise
      fun a b => a.1.toInt? ≠ b.1.toInt? := by
    refine hkeys.imp_of_mem fun ha hb hab heq => ?_
    rw [(interfaceEq_iff_toInt? hint (hcolumn _ ha) (hcolumn _ hb)).mpr heq] at hab
    cases hab
  refine hgroups.filterMap _ fun a b hab x hx y hy hxy => hab ?_
  rw [← view_combineMapGrouping_fst params hx, ← view_combineMapGrouping_fst params hy, hxy]

/-- The slots the slice scans fill have indices that fit an `int`: below `2 ^ 16` for a column of
one or two bytes, below the dictionary size for a string column. -/
theorem sliceSlots_lt {st : StaticTable} {grouping : GroupingParams} {col : DimensionColumn}
    {intervals : List (ℤ × Interval)}
    (hchoice : col.width ≤ 2 ∨ col.string = true ∧ ∃ table,
      st.dimensionTable grouping.columnIndex = .ok table ∧ table.size ≤ 500000)
    {i : Nat} (hi : i < sliceSize st grouping.columnIndex col)
    (hne : groupPartials s params grouping.columnIndex col.type intervals (some i) ≠ []) :
    i < 2 ^ 63 := by
  rcases hchoice with hw | ⟨hstr, table, htable, hsize⟩
  · -- a value of the column is below `2 ^ 16`
    obtain ⟨iv, -, row, -, hkey⟩ := groupPartials_ne_nil_iff.mp hne
    rcases isColumnKey_dimensionKey (s := s) grouping.columnIndex col.type row with hnil | ⟨n, hn⟩
    · rw [hnil] at hkey
      cases hkey
    · rw [hn] at hkey
      have := toInt?_ofCellBits_lt (col.width_eq ▸ hw) hkey
      omega
  · have : sliceSize st grouping.columnIndex col = table.size := by
      rw [sliceSize, if_pos hstr, htable]
    omega

/-- The rows `combineSliceGrouping` makes of the slice scans of the intervals, as views: one for
each group with partials, showing its value read as an integer. -/
theorem mem_view_combineSliceGrouping_scans {st : StaticTable} {grouping : GroupingParams}
    {col : DimensionColumn} {intervals : List (ℤ × Interval)} {partials : List SliceGroupPartials}
    (hint : col.type.isFloat = false) (hcol : s.dimensionColumn grouping.columnIndex = .ok col)
    (hchoice : col.width ≤ 2 ∨ col.string = true ∧ ∃ table,
      st.dimensionTable grouping.columnIndex = .ok table ∧ table.size ≤ 500000)
    (hwhole : ∀ iv ∈ intervals, WholeRows s iv.2)
    (h : intervals.mapM (fun (_, interval) => scanSliceGrouping s st params grouping interval) =
      .ok partials) (v : Option ℤ × List Untyped × UInt32) :
    v ∈ (combineSliceGrouping params partials).map RowAggregate.view ↔
      ∃ o, groupPartials s params grouping.columnIndex col.type intervals o ≠ [] ∧
        v = (o, combined params (groupPartials s params grouping.columnIndex col.type intervals o)) := by
  obtain ⟨hlen, hnil, hslots, hfits⟩ := sliceScans_spec hint hcol hwhole h
  have hbound : ∀ i < sliceSize st grouping.columnIndex col,
      partials.filterMap (·.slicePartials.getD i none) ≠ [] → i < 2 ^ 63 := by
    intro i hi hne
    rw [hslots i hi] at hne
    exact sliceSlots_lt hchoice hi hne
  rw [mem_view_combineSliceGrouping params hlen hbound, hnil]
  constructor
  · rintro (⟨hne, rfl⟩ | ⟨i, hi, hne, rfl⟩)
    · exact ⟨none, hne, rfl⟩
    · rw [hslots i hi] at hne ⊢
      exact ⟨some i, hne, rfl⟩
  · rintro ⟨o, hne, rfl⟩
    cases o with
    | none => exact .inl ⟨hne, rfl⟩
    | some j =>
      -- a group with partials has a row, whose index fits the slices
      obtain ⟨iv, hiv, row, hrow, hkey⟩ := groupPartials_ne_nil_iff.mp hne
      obtain ⟨hj, hjN⟩ := hfits iv hiv row hrow j hkey
      have hi : j.toNat < sliceSize st grouping.columnIndex col := by omega
      refine .inr ⟨j.toNat, hi, ?_, ?_⟩
      · rwa [hslots _ hi, Int.toNat_of_nonneg hj]
      · rw [hslots _ hi, Int.toNat_of_nonneg hj]

/-- When `useSliceGrouping` picks the slice and the slice scans of the intervals succeed, the map
scans of the same intervals succeed, and combining either gives the same groups: the same group
values read as integers (none for the nil group), each with the same sums and count, up to order.
String columns are assumed to have integer types, as the configuration requires. -/
theorem sliceGrouping_agrees_mapGrouping {st : StaticTable} {grouping : GroupingParams}
    {intervals : List (ℤ × Interval)} {partials : List SliceGroupPartials}
    (hstrings : ∀ col ∈ s.dimensionColumns, col.string = true → col.type.isFloat = false)
    (hwhole : ∀ iv ∈ intervals, WholeRows s iv.2)
    (huse : useSliceGrouping s st grouping = .ok true)
    (hslice : intervals.mapM (fun (_, interval) => scanSliceGrouping s st params grouping interval) =
      .ok partials) :
    ∃ mapPartials, intervals.mapM (fun (timestamp, interval) =>
        scanMapGrouping s params grouping timestamp interval) = .ok mapPartials ∧
      ((combineSliceGrouping params partials).map RowAggregate.view).Perm
        ((combineMapGrouping params mapPartials).map RowAggregate.view) := by
  obtain ⟨htr, hts, col, hcol, hchoice⟩ := useSliceGrouping_eq_ok_true huse
  have hint : col.type.isFloat = false := by
    rcases hchoice with hw | ⟨hstr, -⟩
    · -- the float types are four and eight bytes wide
      rw [col.width_eq] at hw
      cases htype : col.type <;> simp_all [typeWidths, ColType.isFloat]
    · refine hstrings col ?_ hstr
      unfold Schema.dimensionColumn at hcol
      split at hcol
      · cases hcol
        exact List.mem_of_getElem? ‹_›
      · cases hcol
  refine ⟨groupMaps s params grouping.columnIndex col.type intervals,
    Go.mapM_eq_ok_map fun iv hiv => scanMapGrouping_eq hts htr hcol (hwhole iv hiv), ?_⟩
  obtain ⟨hlen, -, hslots, -⟩ := sliceScans_spec hint hcol hwhole hslice
  have hnodup := nodup_view_combineSliceGrouping params hlen fun i hi hne =>
    sliceSlots_lt hchoice hi (hslots i hi ▸ hne)
  rw [List.perm_ext_iff_of_nodup hnodup (nodup_view_combineMapGrouping hint intervals)]
  intro v
  rw [mem_view_combineSliceGrouping_scans hint hcol hchoice hwhole hslice,
    mem_view_combineMapGrouping hint]

end Agreement

/-- A schema with a `uint8` dimension `code` and a `uint8` metric `clicks`. -/
def codeSchema : Schema :=
  ⟨Column.make "at" .uint32, [{ Column.make "code" .uint8 with string := false }],
    [Column.make "clicks" .uint8], 1000, 3600 * 1000000000, false, "", ⟨false, 0⟩⟩

/-- Two intervals of `codeSchema`: a row with `code = 3` in each, and a row with a nil code in the
first. -/
def codeTable : StaticTable :=
  ⟨[(0, ⟨0, 0, 3600 * 1000000000,
      [⟨encodeLE 4 1 ++ [0, 3, 1] ++ encodeLE 4 2 ++ [1, 0, 5]⟩], 1, 2⟩),
    (3600, ⟨0, 3600, 7200 * 1000000000, [⟨encodeLE 4 1 ++ [0, 3, 2]⟩], 1, 1⟩)], [none]⟩

/-- `sum(clicks)` grouped on `code`. -/
def codeParams : ScanParams :=
  ⟨[], [], [Column.make "clicks" .uint8], [makeSumFuncGen .uint8 0], some ⟨false, 0, none⟩⟩

theorem sliceGrouping_agrees_mapGrouping_codeTable :
    (∀ col ∈ codeSchema.dimensionColumns, col.string = true → col.type.isFloat = false) ∧
      (∀ iv ∈ codeTable.intervals, WholeRows codeSchema iv.2) ∧
      useSliceGrouping codeSchema codeTable ⟨false, 0, none⟩ = .ok true ∧
      ∃ partials, codeTable.intervals.mapM (fun (_, interval) =>
          scanSliceGrouping codeSchema codeTable codeParams ⟨false, 0, none⟩ interval) =
            .ok partials ∧
        ∃ mapPartials, codeTable.intervals.mapM (fun (timestamp, interval) =>
            scanMapGrouping codeSchema codeParams ⟨false, 0, none⟩ timestamp interval) =
              .ok mapPartials ∧
          ((combineSliceGrouping codeParams partials).map RowAggregate.view).Perm
            ((combineMapGrouping codeParams mapPartials).map RowAggregate.view) := by
  have hstrings : ∀ col ∈ codeSchema.dimensionColumns,
      col.string = true → col.type.isFloat = false := by decide
  have hwhole : ∀ iv ∈ codeTable.intervals, WholeRows codeSchema iv.2 := by decide
  exact ⟨hstrings, hwhole, rfl, _, rfl, @sliceGrouping_agrees_mapGrouping codeSchema codeParams
    codeTable ⟨false, 0, none⟩ codeTable.intervals _ hstrings hwhole rfl rfl⟩

end Gumshoe
