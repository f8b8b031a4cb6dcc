import Gumshoe.Query
import Gumshoe.Collapse

/-!
# Column extrema

`gumtool stats` (`getColumnExtrema`, `combinePartialStats`, `minsMaxes.update`) and
`UntypedLess` of `row.go`. The tool hands the segments of a `StaticTable` to `parallelism`
workers over a channel; each worker keeps, for every column, the least and the greatest value
it has read (`minsMaxes`), and the partial results are combined at the end. Which worker reads
which segment depends on the scheduler and on the order of Go's map iteration in
`findSegments`, so the model takes the assignment as an argument, one list of segments per
worker (`IsAssignment` says which assignments the channel can make).

`combinePartialStats` updates the first partial with its own extrema once per further worker
and never reads the others. On integer columns such an update changes nothing
(`MinsMaxes.update_of_getElem?_mins`), so the answer is the first worker's, whatever the others
read (`getColumnExtrema_eq_first`). `UntypedLess` compares integers after converting them to
`int`, so `uint64` values of `2 ^ 63` and above compare as negative.
-/

namespace Gumshoe

open Bytes

/-- `UntypedLess(u1, u2)`: floats as `float64`, any other value converted to `int`. -/
def untypedLess (u1 u2 : Untyped) : Go Bool :=
  match u1 with
  | .float32 _ | .float64 _ => .ok (decide (untypedToFloat64 u1 < untypedToFloat64 u2))
  | _ => do
    let a ← untypedToInt u1
    let b ← untypedToInt u2
    pure (decide (a < b))

/-- `minsMaxes`: for every column, the least and the greatest value read so far, nil before
any. -/
structure MinsMaxes where
  mins : List Untyped
  maxes : List Untyped
deriving DecidableEq

/-- `minsMaxes.update(value, index)`. -/
def MinsMaxes.update (m : MinsMaxes) (value : Untyped) (index : Nat) : Go MinsMaxes :=
  if value = .nil then .ok m
  else match m.mins[index]?, m.maxes[index]? with
    | some min, some max => do
      let setMin ← if min = .nil then pure true else untypedLess value min
      let setMax ← if max = .nil then pure true else untypedLess max value
      pure ⟨if setMin then m.mins.set index value else m.mins,
        if setMax then m.maxes.set index value else m.maxes⟩
    | none, _ => .panic (indexOutOfRange index m.mins.length)
    | some _, none => .panic (indexOutOfRange index m.maxes.length)

/-- The dimension loop of a worker over one row: the value of every non-nil dimension. -/
def MinsMaxes.addDimensions (s : Schema) (dimensions : List UInt8) (m : MinsMaxes) :
    Go MinsMaxes :=
  s.dimensionColumns.zipIdx.foldlM (fun m (col, k) =>
    if isNil dimensions k then pure m
    else m.update (numericCellValue dimensions (s.layout.dimensionOffsets.getD k 0) col.type) k) m

/-- The metric loop of a worker over one row; the metrics' columns come after the
dimensions'. -/
def MinsMaxes.addMetrics (s : Schema) (metrics : List UInt8) (m : MinsMaxes) : Go MinsMaxes :=
  s.metricColumns.zipIdx.foldlM (fun m (col, k) =>
    m.update (numericCellValue metrics (s.layout.metricOffsets.getD k 0) col.type)
      (k + s.dimensionColumns.length)) m

/-- The body of a worker's row loop. -/
def MinsMaxes.addRow (s : Schema) (m : MinsMaxes) (row : List UInt8) : Go MinsMaxes := do
  let m ← m.addDimensions s (readAt row s.layout.dimensionStartOffset s.layout.dimensionWidth)
  m.addMetrics s (row.drop s.layout.metricStartOffset)

/-- A worker: nil extrema for every column, then every row of the segments it receives. -/
def workerExtrema (s : Schema) (segments : List Segment) : Go MinsMaxes :=
  let numColumns := s.dimensionColumns.length + s.metricColumns.length
  forEachSegmentRow s (MinsMaxes.addRow s)
    ⟨List.replicate numColumns .nil, List.replicate numColumns .nil⟩ segments

/-- `findSegments`: the segments of every interval. -/
def findSegments (st : StaticTable) : List Segment := st.intervals.flatMap (·.2.segments)

/-- The assignments the channel can make: `parallelism` workers, which together receive every
segment once. -/
def IsAssignment (st : StaticTable) (parallelism : Nat) (assignment : List (List Segment)) :
    Prop :=
  assignment.length = parallelism ∧ assignment.flatten.Perm (findSegments st)

instance (st : StaticTable) (parallelism : Nat) (assignment : List (List Segment)) :
    Decidable (IsAssignment st parallelism assignment) :=
  inferInstanceAs (Decidable (_ ∧ _))

/-- `combinePartialStats`: `total` is the first partial, updated with its own extrema once per
further partial. -/
def combinePartialStats : List MinsMaxes → Go (List Untyped × List Untyped)
  | [] => .panic (indexOutOfRange 0 0)
  | total :: partialResults => do
    let total ← partialResults.foldlM (fun total _ => do
      let total ← total.mins.zipIdx.foldlM (fun t (min, j) => t.update min j) total
      total.maxes.zipIdx.foldlM (fun t (max, j) => t.update max j) total) total
    pure (total.mins, total.maxes)

/-- `getColumnExtrema(db, parallelism)`, the `i`-th worker reading the segments
`assignment[i]`. -/
def getColumnExtrema (s : Schema) (assignment : List (List Segment)) :
    Go (List Untyped × List Untyped) := do
  let partialResults ← assignment.mapM (workerExtrema s)
  combinePartialStats partialResults

/-! ## Integer values -/

/-- The schema's dimension and metric columns are integers. -/
def Schema.IntegerColumns (s : Schema) : Prop :=
  (∀ c ∈ s.dimensionColumns, c.type.isFloat = false) ∧ s.IntegerMetrics

theorem untypedToInt_of_toInt? {u : Untyped} {x : ℤ} (h : u.toInt? = some x) :
    untypedToInt u = .ok (wrapInt .int64 x) := by
  cases u <;> simp only [Untyped.toInt?, Option.some.injEq, reduceCtorEq] at h <;> subst h <;> rfl

/-- Two integers compare as `int`s. -/
theorem untypedLess_of_toInt? {a b : Untyped} {x y : ℤ} (ha : a.toInt? = some x)
    (hb : b.toInt? = some y) :
    untypedLess a b = .ok (decide (wrapInt .int64 x < wrapInt .int64 y)) := by
  have hla := untypedToInt_of_toInt? ha
  have hlb := untypedToInt_of_toInt? hb
  -- a float has no integer value, so `a` takes the integer branch
  cases a <;> simp only [Untyped.toInt?, reduceCtorEq] at ha <;>
    simp only [untypedLess, hla, hlb, Go.ok_bind, Go.pure_eq]

/-- A cell of an integer type reads as an integer. -/
theorem toInt?_numericCellValue {typ : ColType} (hint : typ.isFloat = false) (buf : List UInt8)
    (pos : Nat) : ∃ x, (numericCellValue buf pos typ).toInt? = some x := by
  cases typ <;> simp only [ColType.isFloat, Bool.true_eq_false] at hint <;> exact ⟨_, rfl⟩

/-! ## The invariant of a partial -/

/-- One column of a partial: no value yet, or two integers, the least not above the greatest as
`int`s. -/
def ColumnOrdered (min max : Untyped) : Prop :=
  (min = .nil ∧ max = .nil) ∨
    ∃ x y, min.toInt? = some x ∧ max.toInt? = some y ∧ wrapInt .int64 x ≤ wrapInt .int64 y

/-- Every column of the partial is ordered; past the end both lists read as nil. -/
def MinsMaxes.Ordered (m : MinsMaxes) : Prop :=
  ∀ j, ColumnOrdered (m.mins.getD j .nil) (m.maxes.getD j .nil)

theorem columnOrdered_self {v : Untyped} {x : ℤ} (hv : v.toInt? = some x) : ColumnOrdered v v :=
  .inr ⟨x, x, hv, hv, le_refl _⟩

theorem ordered_replicate (n : Nat) :
    MinsMaxes.Ordered ⟨List.replicate n .nil, List.replicate n .nil⟩ := by
  intro j
  left
  simp [List.getD_eq_getElem?_getD, List.getElem?_replicate]
  split <;> simp

namespace MinsMaxes

variable {m m' : MinsMaxes} {j : Nat}

/-- Setting column `j`, inside both lists, to an ordered pair keeps a partial ordered. -/
theorem Ordered.set (hm : m.Ordered) (hmin : j < m.mins.length) (hmax : j < m.maxes.length)
    {a b : Untyped} (hab : ColumnOrdered a b) : Ordered ⟨m.mins.set j a, m.maxes.set j b⟩ := by
  intro i
  by_cases hij : j = i
  · subst hij
    simpa [List.getD_eq_getElem?_getD, List.getElem?_set, hmin, hmax] using hab
  · simpa [List.getD_eq_getElem?_getD, List.getElem?_set, hij] using hm i

/-- The column at `j` of an ordered partial. -/
theorem Ordered.getElem? (hm : m.Ordered) {min max : Untyped} (hmin : m.mins[j]? = some min)
    (hmax : m.maxes[j]? = some max) : ColumnOrdered min max := by
  have h := hm j
  simp only [List.getD_eq_getElem?_getD, hmin, hmax, Option.getD_some] at h
  exact h

/-- Updating an ordered partial with an integer keeps it ordered. -/
theorem update_ordered (hm : m.Ordered) {v : Untyped} {x : ℤ} (hv : v.toInt? = some x)
    (h : m.update v j = .ok m') : m'.Ordered := by
  have hnil : v ≠ .nil := by
    rintro rfl
    cases hv
  unfold update at h
  rw [if_neg hnil] at h
  -- only the branch that finds column `j` in both lists returns
  split at h
  case h_2 | h_3 => cases h
  rename_i min max hmin hmax
  have hjmin : j < m.mins.length := (List.getElem?_eq_some_iff.mp hmin).1
  have hjmax : j < m.maxes.length := (List.getElem?_eq_some_iff.mp hmax).1
  have hmins : m.mins.set j min = m.mins := by
    obtain ⟨_, hget⟩ := List.getElem?_eq_some_iff.mp hmin
    rw [← hget, List.set_getElem_self]
  have hmaxes : m.maxes.set j max = m.maxes := by
    obtain ⟨_, hget⟩ := List.getElem?_eq_some_iff.mp hmax
    rw [← hget, List.set_getElem_self]
  rcases hm.getElem? hmin hmax with ⟨rfl, rfl⟩ | ⟨a, b, ha, hb, hab⟩
  · -- the first value of the column becomes both its least and its greatest
    simp only [if_true, Go.pure_eq, Go.ok_bind, Go.ok.injEq] at h
    subst h
    exact hm.set hjmin hjmax (columnOrdered_self hv)
  · have hminnil : min ≠ .nil := by
      rintro rfl
      cases ha
    have hmaxnil : max ≠ .nil := by
      rintro rfl
      cases hb
    simp only [hminnil, hmaxnil, if_false, untypedLess_of_toInt? hv ha,
      untypedLess_of_toInt? hb hv, Go.ok_bind, Go.pure_eq, Go.ok.injEq] at h
    subst h
    -- both sides written as a `set` of column `j`
    have hnew : Ordered ⟨m.mins.set j (if wrapInt .int64 x < wrapInt .int64 a then v else min),
        m.maxes.set j (if wrapInt .int64 b < wrapInt .int64 x then v else max)⟩ := by
      refine hm.set hjmin hjmax (.inr ?_)
      by_cases hlo : wrapInt .int64 x < wrapInt .int64 a <;>
        by_cases hhi : wrapInt .int64 b < wrapInt .int64 x
      · exact ⟨x, x, by simp [hlo, hv], by simp [hhi, hv], le_refl _⟩
      · exact ⟨x, b, by simp [hlo, hv], by simp [hhi, hb], by omega⟩
      · exact ⟨a, x, by simp [hlo, ha], by simp [hhi, hv], by omega⟩
      · exact ⟨a, b, by simp [hlo, ha], by simp [hhi, hb], hab⟩
    by_cases hlo : wrapInt .int64 x < wrapInt .int64 a <;>
      by_cases hhi : wrapInt .int64 b < wrapInt .int64 x <;>
      simp_all only [decide_true, decide_false, if_true, if_false, Bool.false_eq_true]

/-- An update with nil changes nothing. -/
theorem update_nil (m : MinsMaxes) (j : Nat) : m.update .nil j = .ok m := by
  simp [update]

/-- On an ordered partial, an update with a column's own least value changes nothing. -/
theorem update_of_getElem?_mins (hm : m.Ordered) {v : Untyped} (hv : m.mins[j]? = some v) :
    m.update v j = .ok m := by
  have hord := hm j
  simp only [List.getD_eq_getElem?_getD, hv, Option.getD_some] at hord
  rcases hord with ⟨rfl, -⟩ | ⟨x, y, hx, hy, hxy⟩
  · exact update_nil m j
  · obtain ⟨max, hmax⟩ : ∃ max, m.maxes[j]? = some max := by
      cases hmj : m.maxes[j]? with
      | none => simp [hmj, Untyped.toInt?] at hy
      | some max => exact ⟨max, rfl⟩
    have hmaxy : max.toInt? = some y := by
      simpa [List.getD_eq_getElem?_getD, hmax] using hy
    have hvnil : v ≠ .nil := by
      rintro rfl
      cases hx
    have hmaxnil : max ≠ .nil := by
      rintro rfl
      cases hmaxy
    have hlt : ¬ wrapInt .int64 y < wrapInt .int64 x := by omega
    simp [update, hvnil, hv, hmax, hmaxnil, untypedLess_of_toInt? hx hx,
      untypedLess_of_toInt? hmaxy hx, hlt]

/-- On an ordered partial, an update with a column's own greatest value changes nothing. -/
theorem update_of_getElem?_maxes (hm : m.Ordered) {v : Untyped} (hv : m.maxes[j]? = some v) :
    m.update v j = .ok m := by
  have hord := hm j
  simp only [List.getD_eq_getElem?_getD, hv, Option.getD_some] at hord
  rcases hord with ⟨-, rfl⟩ | ⟨x, y, hx, hy, hxy⟩
  · exact update_nil m j
  · obtain ⟨min, hmin⟩ : ∃ min, m.mins[j]? = some min := by
      cases hmj : m.mins[j]? with
      | none => simp [hmj, Untyped.toInt?] at hx
      | some min => exact ⟨min, rfl⟩
    have hminx : min.toInt? = some x := by
      simpa [List.getD_eq_getElem?_getD, hmin] using hx
    have hvnil : v ≠ .nil := by
      rintro rfl
      cases hy
    have hminnil : min ≠ .nil := by
      rintro rfl
      cases hminx
    have hlt : ¬ wrapInt .int64 y < wrapInt .int64 x := by omega
    simp [update, hvnil, hv, hmin, hminnil, untypedLess_of_toInt? hy hminx,
      untypedLess_of_toInt? hy hy, hlt]

/-- A worker's row step keeps its partial ordered on an integer schema. -/
theorem addRow_ordered {s : Schema} (hint : s.IntegerColumns) (hm : m.Ordered) {row : List UInt8}
    (h : m.addRow s row = .ok m') : m'.Ordered := by
  obtain ⟨m₁, h₁, h₂⟩ := Go.bind_eq_ok.mp h
  -- the dimension loop: a nil dimension is skipped, any other value is an integer
  have hdims : m₁.Ordered := by
    refine Go.foldlM_inv (fun p hp t t' ht hstep => ?_) hm h₁
    obtain ⟨col, k⟩ := p
    have hcol : col ∈ s.dimensionColumns := List.fst_mem_of_mem_zipIdx hp
    simp only at hstep
    split at hstep
    · simp only [Go.pure_eq, Go.ok.injEq] at hstep
      exact hstep ▸ ht
    · obtain ⟨x, hx⟩ := toInt?_numericCellValue (hint.1 col hcol) _ _
      exact update_ordered ht hx hstep
  refine Go.foldlM_inv (fun p hp t t' ht hstep => ?_) hdims h₂
  obtain ⟨col, k⟩ := p
  have hcol : col ∈ s.metricColumns := List.fst_mem_of_mem_zipIdx hp
  obtain ⟨x, hx⟩ := toInt?_numericCellValue (hint.2 col hcol) _ _
  exact update_ordered ht hx hstep

end MinsMaxes

/-- On an integer schema a worker's partial is ordered. -/
theorem workerExtrema_ordered {s : Schema} (hint : s.IntegerColumns) {segments : List Segment}
    {partial₀ : MinsMaxes} (h : workerExtrema s segments = .ok partial₀) : partial₀.Ordered :=
  forEachSegmentRow_inv (fun _ _ _ hm hrow => MinsMaxes.addRow_ordered hint hm hrow)
    (ordered_replicate _) h

/-- On an ordered first partial, `combinePartialStats` returns it unchanged, whatever follows
it. -/
theorem combinePartialStats_of_ordered {total : MinsMaxes} (htotal : total.Ordered)
    (partialResults : List MinsMaxes) :
    combinePartialStats (total :: partialResults) = .ok (total.mins, total.maxes) := by
  -- each pass updates `total` with its own extrema, which leaves it as it is
  have hmins : total.mins.zipIdx.foldlM
      (fun (t : MinsMaxes) (p : Untyped × Nat) => t.update p.1 p.2) total = .ok total :=
    Go.foldlM_eq_ok_self fun _ hp =>
      MinsMaxes.update_of_getElem?_mins htotal (List.mem_zipIdx_iff_getElem?.mp hp)
  have hmaxes : total.maxes.zipIdx.foldlM
      (fun (t : MinsMaxes) (p : Untyped × Nat) => t.update p.1 p.2) total = .ok total :=
    Go.foldlM_eq_ok_self fun _ hp =>
      MinsMaxes.update_of_getElem?_maxes htotal (List.mem_zipIdx_iff_getElem?.mp hp)
  have hpass : partialResults.foldlM (fun (total : MinsMaxes) _ => do
      let total ← total.mins.zipIdx.foldlM
        (fun (t : MinsMaxes) (p : Untyped × Nat) => t.update p.1 p.2) total
      total.maxes.zipIdx.foldlM
        (fun (t : MinsMaxes) (p : Untyped × Nat) => t.update p.1 p.2) total) total = .ok total :=
    Go.foldlM_eq_ok_self fun _ _ => by rw [hmins, Go.ok_bind, hmaxes]
  rw [combinePartialStats, hpass]
  rfl

/-- On an integer schema, when every worker succeeds, `getColumnExtrema` answers the first
worker's extrema, whatever segments the other workers read. -/
theorem getColumnExtrema_eq_first {s : Schema} (hint : s.IntegerColumns)
    {first : List Segment} {rest : List (List Segment)} {partial₀ : MinsMaxes}
    (hfirst : workerExtrema s first = .ok partial₀)
    (hrest : ∀ segments ∈ rest, ∃ p, workerExtrema s segments = .ok p) :
    getColumnExtrema s (first :: rest) = .ok (partial₀.mins, partial₀.maxes) := by
  obtain ⟨partials, hpartials⟩ := Go.mapM_ok_of_forall hrest
  have hall : (first :: rest).mapM (workerExtrema s) = .ok (partial₀ :: partials) := by
    rw [List.mapM_cons, hfirst, hpartials]
    rfl
  rw [getColumnExtrema, hall, Go.ok_bind]
  exact combinePartialStats_of_ordered (workerExtrema_ordered hint hfirst) partials

/-- A segment of `clicksSchema` with one row, `clicks = 1`. -/
def lowSegment : Segment := ⟨encodeLE 4 1 ++ [0, 1]⟩

/-- A segment of `clicksSchema` with one row, `clicks = 5`. -/
def highSegment : Segment := ⟨encodeLE 4 1 ++ [0, 5]⟩

/-- One interval of `clicksSchema` with the two segments. -/
def twoSegmentTable : StaticTable :=
  ⟨[(0, ⟨0, 0, 3600 * 1000000000, [lowSegment, highSegment], 2, 2⟩)], []⟩

theorem getColumnExtrema_eq_first_twoSegments :
    clicksSchema.IntegerColumns ∧
      workerExtrema clicksSchema [lowSegment] = .ok ⟨[.uint8 1], [.uint8 1]⟩ ∧
      (∀ segments ∈ [[highSegment]], ∃ p, workerExtrema clicksSchema segments = .ok p) ∧
      getColumnExtrema clicksSchema [[lowSegment], [highSegment]] =
        .ok ([.uint8 1], [.uint8 1]) := by
  have hint : clicksSchema.IntegerColumns := by
    unfold Schema.IntegerColumns Schema.IntegerMetrics
    decide
  have hfirst : workerExtrema clicksSchema [lowSegment] = .ok ⟨[.uint8 1], [.uint8 1]⟩ := rfl
  have hhigh : workerExtrema clicksSchema [highSegment] = .ok ⟨[.uint8 5], [.uint8 5]⟩ := rfl
  have hrest : ∀ segments ∈ [[highSegment]], ∃ p, workerExtrema clicksSchema segments = .ok p := by
    simp only [List.mem_singleton, forall_eq]
    exact ⟨_, hhigh⟩
  exact ⟨hint, hfirst, hrest, getColumnExtrema_eq_first hint hfirst hrest⟩

/-- A schema with a `uint64` metric `total`. -/
def totalSchema : Schema :=
  ⟨Column.make "at" .uint32, [], [Column.make "total" .uint64], 1000, 3600 * 1000000000, false, "",
    ⟨false, 0⟩⟩

/-- A segment of `totalSchema` with two rows, `total = 1` and `total = 2 ^ 63`. -/
def signBitSegment : Segment :=
  ⟨encodeLE 4 1 ++ [0] ++ encodeLE 8 1 ++ encodeLE 4 1 ++ [0] ++ encodeLE 8 (2 ^ 63)⟩

/-- One interval of `totalSchema` with `signBitSegment`. -/
def signBitTable : StaticTable :=
  ⟨[(0, ⟨0, 0, 3600 * 1000000000, [signBitSegment], 1, 2⟩)], []⟩

/-- Two workers, the second of which reads the row with `clicks = 5`: the answer is the first
worker's, `1`. One worker over `total = 1` and `total = 2 ^ 63`: `int(2 ^ 63)` is negative, so
the least value reported is `2 ^ 63` and the greatest `1`. -/
theorem getColumnExtrema_misreports :
    IsAssignment twoSegmentTable 2 [[lowSegment], [highSegment]] ∧
      (twoSegmentTable.intervals.flatMap fun iv => iv.2.rows clicksSchema).map (·.2.metric) =
        [[1], [5]] ∧
      getColumnExtrema clicksSchema [[lowSegment], [highSegment]] = .ok ([.uint8 1], [.uint8 1]) ∧
      IsAssignment signBitTable 1 [[signBitSegment]] ∧
      (signBitTable.intervals.flatMap fun iv => iv.2.rows totalSchema).map (·.2.metric) =
        [encodeLE 8 1, encodeLE 8 (2 ^ 63)] ∧
      getColumnExtrema totalSchema [[signBitSegment]] = .ok ([.uint64 (2 ^ 63)], [.uint64 1]) :=
  ⟨by decide, rfl, by decide +kernel, by decide, rfl, by decide +kernel⟩

end Gumshoe
