import Gumshoe.Grouping
import Gumshoe.Lib.LockedMap

/-!
# The router's merge of the shards' answers

`router/router.go`: `HandleQuery` sends the query to every shard and merges the rows the shards
stream back, one goroutine per shard. Without a grouping each shard sends one row and the rows
are merged into one. With a grouping, a row is filed under its group value (`groupByValue`, the
value of the grouping column, converted to `int64` for an integral column) in `resultMap`: the
goroutine takes the map's lock `mu` and looks the value up; a new group takes the row as it is,
otherwise the goroutine takes the group's own lock, releases `mu`, and merges the row into the
group's (`mergeRows`, which adds every aggregate and `rowCount` with `sumColumn`).

That loop is the locked map of `Lib/LockedMap`, with the router's group value as key and
`mergeRows` as merge (`MergeStep`); reading the next row and computing its group value touch no
shared state, so they are part of the goroutine's next step. The concurrent model runs the total
`groupKey` and `mergeInto`: on the rows shards send (numbers for the summed fields, a number or
nothing for an integral grouping column) they are the results of `groupByValue` and `mergeRows`,
which then never panic (`groupByValue_eq_ok`, `mergeRows_spec`).

**Theorem (`handleQuery_groups_sum_every_row`).** For any rows the shards send, when the
aggregates are over integer columns and the summed names are distinct, every run of the shard
goroutines that ends with all of them done leaves one entry per group, and each summed field of an
entry is the `int64` sum of that field over all the rows of its group from all shards, whatever
order the goroutines took the locks in. **Theorem (`handleQuery_merge_never_blocks`).** No run
blocks before every goroutine is done, and every run is finite.

A JSON number is a `float64`, and `int64(f)` truncates it; out of range, where Go leaves the
result to the implementation, the model wraps it as `convertFloat` does.
-/

namespace Gumshoe

/-- `Router`, without the HTTP handler and client: the shards' common schema and their addresses. -/
structure Router where
  schema : Schema
  shards : List String

namespace Router

variable (r : Router)

/-- `validColumnName`. -/
def validColumnName (name : String) : Bool :=
  name == r.schema.timestampColumn.name || (r.schema.layout.dimensionNameToIndex name).isSome ||
    (r.schema.layout.metricNameToIndex name).isSome

/-- `convertColumnToIntegral`: whether group values of the column are converted to `int64`. -/
def convertColumnToIntegral (name : String) : Go Bool :=
  match r.schema.layout.dimensionNameToIndex name with
  | some i => do
    let dimCol ← r.schema.dimensionColumn i
    if dimCol.string then pure false else pure !dimCol.type.isFloat
  | none =>
    if name = r.schema.timestampColumn.name then pure !r.schema.timestampColumn.type.isFloat
    else .panic "grouping column doesn't exist"

/-- `typeForCol`. -/
def typeForCol (col : String) : Go ColType :=
  match r.schema.layout.dimensionNameToIndex col with
  | some i => (·.type) <$> r.schema.dimensionColumn i
  | none =>
    match r.schema.layout.metricNameToIndex col with
    | some i => (·.type) <$> r.schema.metricColumn i
    | none => .panic ("bad column in sumColumn: " ++ col)

end Router

/-- `float64(0)`. -/
def F64.zero : F64 := ⟨0⟩

/-- `int64(f)`: truncation toward zero, wrapped into `int64`. -/
def F64.toInt64 (f : F64) : Int64 := Int64.ofInt (f.value.truncInt.getD 0)

/-- `a + b` in `float64`. -/
def F64.add (a b : F64) : F64 := ⟨(Float.ofBits a.bits + Float.ofBits b.bits).toBits⟩

/-- The dynamic type of a value, as a failed type assertion names it; `other` (a JSON boolean,
array or object) is named as a boolean. -/
def Untyped.goTypeName : Untyped → String
  | .nil => "nil"
  | .float64 _ => "float64"
  | .string _ => "string"
  | .other => "bool"
  | .uint8 _ => "uint8"
  | .int8 _ => "int8"
  | .uint16 _ => "uint16"
  | .int16 _ => "int16"
  | .uint32 _ => "uint32"
  | .int32 _ => "int32"
  | .float32 _ => "float32"
  | .uint64 _ => "uint64"
  | .int64 _ => "int64"
  | .int _ => "int"

/-- The panic of the type assertion `v.(float64)`. -/
def assertFloat64Panic (v : Untyped) : String :=
  "interface conversion: interface \x7b\x7d is " ++ v.goTypeName ++ ", not float64"

/-- `sumColumn`: the sum of `col` in two rows, a missing value read as `float64(0)`; integer
columns are summed in `int64`, the first value possibly already one. -/
def sumColumn (row1 row2 : RowMap) (col : String) (typ : ColType) : Go Untyped :=
  let val1 := (row1.get? col).getD (.float64 F64.zero)
  let val2 := (row2.get? col).getD (.float64 F64.zero)
  if typ.isFloat then
    match val1 with
    | .float64 a =>
      match val2 with
      | .float64 b => .ok (.float64 (a.add b))
      | v => .panic (assertFloat64Panic v)
    | v => .panic (assertFloat64Panic v)
  else
    match val1 with
    | .int64 v1 =>
      match val2 with
      | .float64 b => .ok (.int64 (v1 + b.toInt64))
      | v => .panic (assertFloat64Panic v)
    | .float64 a =>
      match val2 with
      | .float64 b => .ok (.int64 (a.toInt64 + b.toInt64))
      | v => .panic (assertFloat64Panic v)
    | _ => .panic "unexpected type"

/-- `mergeRows`: `row2` merged into `row1`, aggregate by aggregate, then `rowCount`. -/
def Router.mergeRows (r : Router) (row1 row2 : RowMap) (q : Query) : Go RowMap := do
  let row1 ← q.aggregates.foldlM (fun row1 agg => do
    let typ ← r.typeForCol agg.column
    let sum ← sumColumn row1 row2 agg.name typ
    pure (row1.set agg.name sum)) row1
  let rowCount ← sumColumn row1 row2 "rowCount" .int64
  pure (row1.set "rowCount" rowCount)

/-- The group value of a streamed row: `row[groupingCol]`, converted to `int64` for an integral
column. -/
def groupByValue (groupingCol : String) (intConv : Bool) (row : RowMap) : Go Untyped :=
  let value := (row.get? groupingCol).getD .nil
  if intConv && value != .nil then
    match value with
    | .float64 f => .ok (.int64 f.toInt64)
    | v => .panic (assertFloat64Panic v)
  else .ok value

/-! ## Merging two rows -/

theorem RowMap.get?_set_of_ne (m : RowMap) {k k' : String} (v : Untyped) (h : k' ≠ k) :
    (m.set k v).get? k' = m.get? k' := by
  -- dropping the entries of another key keeps the lookup of `k'`
  have hfilter : ∀ l : List (String × Untyped),
      (l.filter fun e => !decide (e.1 = k)).lookup k' = l.lookup k' := by
    intro l
    induction l with
    | nil => rfl
    | cons e l ih =>
      obtain ⟨k₀, v₀⟩ := e
      by_cases he : k₀ = k
      · subst he
        have hb : (k' == k₀) = false := beq_eq_false_iff_ne.mpr h
        simp [List.lookup_cons, hb, ih]
      · simp [he, List.lookup_cons, ih]
  have hb : (k' == k) = false := beq_eq_false_iff_ne.mpr h
  simp [RowMap.get?, RowMap.set, List.lookup_cons, hb, hfilter]

/-- The names `mergeRows` sums into. -/
def sumFields (q : Query) : List String := q.aggregates.map (·.name) ++ ["rowCount"]

/-- The integer `sumColumn` takes a summed field for: an `int64` as it is, a number truncated, a
missing value as `float64(0)`. -/
def sumValue : Option Untyped → Int64
  | some (.int64 v) => v
  | some (.float64 f) => f.toInt64
  | _ => 0

/-- A field as a shard streams it: a JSON number, or nothing. -/
def IsNumberField (row : RowMap) (c : String) : Prop :=
  row.get? c = none ∨ ∃ f, row.get? c = some (.float64 f)

/-- A field of a row being merged into: a number, an `int64` sum, or nothing. -/
def IsSumField (row : RowMap) (c : String) : Prop :=
  IsNumberField row c ∨ ∃ v, row.get? c = some (.int64 v)

/-- Aggregates over integer columns, under names distinct from each other and from `rowCount`:
then every merge sums in `int64`, and each name is summed once. -/
structure IntegerSums (r : Router) (q : Query) : Prop where
  types : ∀ agg ∈ q.aggregates, ∃ t, r.typeForCol agg.column = .ok t ∧ t.isFloat = false
  names : (sumFields q).Nodup

theorem IsSumField.congr {row row' : RowMap} {c : String} (h : row'.get? c = row.get? c)
    (hs : IsSumField row c) : IsSumField row' c := by
  unfold IsSumField IsNumberField at *
  rw [h]
  exact hs

theorem F64.toInt64_zero : F64.zero.toInt64 = 0 := by
  simp [F64.toInt64, F64.value, F64.zero, IEEE.decode, IEEE.binary64, IEEE.Value.truncInt,
    IEEE.scale_zero]

theorem sumValue_none : sumValue none = 0 := rfl

/-- On integer columns `sumColumn` adds the two values as `sumValue` reads them. -/
theorem sumColumn_int {row1 row2 : RowMap} {c : String} {t : ColType} (ht : t.isFloat = false)
    (h1 : IsSumField row1 c) (h2 : IsNumberField row2 c) :
    sumColumn row1 row2 c t = .ok (.int64 (sumValue (row1.get? c) + sumValue (row2.get? c))) := by
  -- the second value, a number
  obtain ⟨b, hb, hbv⟩ : ∃ b, (row2.get? c).getD (.float64 F64.zero) = .float64 b ∧
      sumValue (row2.get? c) = b.toInt64 := by
    rcases h2 with h2 | ⟨f, h2⟩
    · exact ⟨F64.zero, by rw [h2]; rfl, by rw [h2, sumValue_none, F64.toInt64_zero]⟩
    · exact ⟨f, by rw [h2]; rfl, by rw [h2]; rfl⟩
  unfold sumColumn
  rw [if_neg (by simp [ht]), hb, hbv]
  rcases h1 with (h1 | ⟨f, h1⟩) | ⟨v, h1⟩
  · simp only [h1, Option.getD_none, sumValue_none, F64.toInt64_zero]
  · rw [h1]
    rfl
  · rw [h1]
    rfl

section Merge

variable {r : Router} {q : Query}

/-- The aggregate loop of `mergeRows`: each aggregate's name gets the sum of the two rows' values,
the other fields keep `row1`'s. -/
theorem foldlM_sumAggregates (hq : IntegerSums r q) {row2 : RowMap} :
    ∀ (aggs : List QueryAggregate) (acc : RowMap), (∀ agg ∈ aggs, agg ∈ q.aggregates) →
    (aggs.map (·.name)).Nodup → (∀ c ∈ aggs.map (·.name), IsSumField acc c) →
    (∀ c ∈ aggs.map (·.name), IsNumberField row2 c) →
    ∃ m, aggs.foldlM (fun row1 agg => do
        let typ ← r.typeForCol agg.column
        let sum ← sumColumn row1 row2 agg.name typ
        pure (row1.set agg.name sum)) acc = .ok m ∧
      (∀ c ∈ aggs.map (·.name),
        m.get? c = some (.int64 (sumValue (acc.get? c) + sumValue (row2.get? c)))) ∧
      ∀ c ∉ aggs.map (·.name), m.get? c = acc.get? c
  | [], acc, _, _, _, _ => ⟨acc, rfl, by simp, fun _ _ => rfl⟩
  | agg :: aggs, acc, hsub, hnodup, hacc, hrow2 => by
    obtain ⟨t, ht, hint⟩ := hq.types agg (hsub agg List.mem_cons_self)
    rw [List.map_cons, List.nodup_cons] at hnodup
    have hname : agg.name ∈ (agg :: aggs).map (·.name) := List.mem_cons_self
    -- the first aggregate, then the others from the updated row
    set acc' := acc.set agg.name (.int64 (sumValue (acc.get? agg.name) +
      sumValue (row2.get? agg.name))) with hacc'
    have hkeep : ∀ c ∈ aggs.map (·.name), acc'.get? c = acc.get? c := fun c hc =>
      RowMap.get?_set_of_ne _ _ fun e => hnodup.1 (e ▸ hc)
    obtain ⟨m, hm, hsums, hother⟩ := foldlM_sumAggregates hq aggs acc'
      (fun a ha => hsub a (List.mem_cons_of_mem agg ha)) hnodup.2
      (fun c hc => (hacc c (List.mem_cons_of_mem _ hc)).congr (hkeep c hc))
      (fun c hc => hrow2 c (List.mem_cons_of_mem _ hc))
    refine ⟨m, ?_, fun c hc => ?_, fun c hc => ?_⟩
    · rw [List.foldlM_cons, ht, Go.ok_bind, sumColumn_int hint (hacc _ hname) (hrow2 _ hname)]
      exact hm
    · rcases List.mem_cons.mp hc with rfl | hc
      · rw [hother _ hnodup.1, hacc', RowMap.get?_set_self]
      · rw [hsums c hc, hkeep c hc]
    · rw [hother c fun h => hc (List.mem_cons_of_mem _ h), hacc',
        RowMap.get?_set_of_ne _ _ fun (e : c = agg.name) => hc (e ▸ hname)]

/-- `mergeRows` on integer aggregates: every summed field gets the `int64` sum of the two rows'
values, and the other fields keep `row1`'s. -/
theorem mergeRows_spec (hq : IntegerSums r q) {row1 row2 : RowMap}
    (h1 : ∀ c ∈ sumFields q, IsSumField row1 c) (h2 : ∀ c ∈ sumFields q, IsNumberField row2 c) :
    ∃ m, r.mergeRows row1 row2 q = .ok m ∧
      (∀ c ∈ sumFields q,
        m.get? c = some (.int64 (sumValue (row1.get? c) + sumValue (row2.get? c)))) ∧
      ∀ c ∉ sumFields q, m.get? c = row1.get? c := by
  have hnodup := hq.names
  rw [sumFields, List.nodup_append] at hnodup
  have hrc : "rowCount" ∉ q.aggregates.map (·.name) := fun h => hnodup.2.2 _ h _ List.mem_cons_self rfl
  have hin : ∀ c ∈ q.aggregates.map (·.name), c ∈ sumFields q := fun c hc => List.mem_append_left _ hc
  have hrcin : "rowCount" ∈ sumFields q := List.mem_append_right _ List.mem_cons_self
  obtain ⟨m, hm, hsums, hother⟩ := foldlM_sumAggregates hq q.aggregates row1 (fun _ h => h)
    hnodup.1 (fun c hc => h1 c (hin c hc)) (fun c hc => h2 c (hin c hc))
  -- `rowCount` is read from the row the loop left, where it is still `row1`'s
  have hcount := sumColumn_int (t := .int64) rfl ((h1 _ hrcin).congr (hother _ hrc)) (h2 _ hrcin)
  refine ⟨m.set "rowCount"
    (.int64 (sumValue (m.get? "rowCount") + sumValue (row2.get? "rowCount"))), ?_,
    fun c hc => ?_, fun c hc => ?_⟩
  · rw [Router.mergeRows, hm, Go.ok_bind, hcount]
    rfl
  · by_cases hcr : c = "rowCount"
    · subst hcr
      rw [RowMap.get?_set_self, hother _ hrc]
    · rw [RowMap.get?_set_of_ne _ _ hcr]
      have hc' : c ∈ q.aggregates.map (·.name) := by
        simpa [sumFields, hcr] using hc
      exact hsums c hc'
  · have hcr : c ≠ "rowCount" := fun e => hc (e ▸ hrcin)
    rw [RowMap.get?_set_of_ne _ _ hcr, hother c fun h => hc (hin c h)]

end Merge

/-! ## The shards' goroutines -/

section Workers

variable (r : Router) (q : Query) (groupingCol : String) (intConv : Bool)

/-- The group value of a row, as `groupByValue` computes it on the rows shards send. -/
def groupKey (row : RowMap) : Untyped :=
  match groupByValue groupingCol intConv row with
  | .ok k => k
  | _ => .nil

/-- `row` merged into `cur`, as `mergeRows` makes it on the rows shards send. -/
def mergeInto (cur row : RowMap) : RowMap :=
  match r.mergeRows cur row q with
  | .ok m => m
  | _ => cur

/-- One step of `HandleQuery`'s shard goroutines in the grouping case: a locked map keyed by the
group values under Go's `==`, a new group taking the row as it is. -/
def MergeStep {n : Nat} (s t : LockedMap.State Untyped RowMap RowMap n) : Prop :=
  LockedMap.Step Untyped.interfaceEq (groupKey groupingCol intConv) id (mergeInto r q) s t

/-- A row as a shard streams it for the query: its summed fields are numbers or missing, and its
group value is computed without a panic and is not a NaN. -/
structure ShardRow (row : RowMap) : Prop where
  numbers : ∀ c ∈ sumFields q, IsNumberField row c
  group : ∃ k, groupByValue groupingCol intConv row = .ok k ∧ k.interfaceEq k = true

end Workers

section Totals

variable {r : Router} {q : Query} {groupingCol : String} {intConv : Bool}

theorem groupByValue_eq_ok {row : RowMap} (h : ShardRow q groupingCol intConv row) :
    groupByValue groupingCol intConv row = .ok (groupKey groupingCol intConv row) := by
  obtain ⟨k, hk, -⟩ := h.group
  rw [groupKey, hk]

theorem IsNumberField.isSumField {row : RowMap} {c : String} (h : IsNumberField row c) :
    IsSumField row c := .inl h

/-- Merging rows one after another into a first one: every summed field is the sum of the rows'
values, in `int64` arithmetic. -/
theorem foldl_mergeInto (hq : IntegerSums r q) {c : String} (hc : c ∈ sumFields q) :
    ∀ (rows : List RowMap) (acc : RowMap), (∀ c ∈ sumFields q, IsSumField acc c) →
    (∀ row ∈ rows, ∀ c ∈ sumFields q, IsNumberField row c) →
    sumValue ((rows.foldl (mergeInto r q) acc).get? c) =
      rows.foldl (fun total row => total + sumValue (row.get? c)) (sumValue (acc.get? c))
  | [], _, _, _ => rfl
  | row :: rows, acc, hacc, hrows => by
    obtain ⟨m, hm, hsums, -⟩ := mergeRows_spec hq hacc (hrows row List.mem_cons_self)
    have hmerge : mergeInto r q acc row = m := by rw [mergeInto, hm]
    -- the merged row holds `int64` sums, so it can be merged into again
    have hm' : ∀ c ∈ sumFields q, IsSumField m c := fun c hc => .inr ⟨_, hsums c hc⟩
    rw [List.foldl_cons, List.foldl_cons, hmerge,
      foldl_mergeInto hq hc rows m hm' fun row' h => hrows row' (List.mem_cons_of_mem row h),
      hsums c hc]
    rfl

/-- An `int64` running sum is the sum of the integers, wrapped. -/
theorem foldl_add_int64 {γ : Type} (g : γ → Int64) :
    ∀ (xs : List γ) (a : Int64),
    xs.foldl (fun total x => total + g x) a = a + Int64.ofInt (xs.map fun x => (g x).toInt).sum
  | [], a => by simp
  | x :: xs, a => by
    rw [List.foldl_cons, foldl_add_int64 g xs, List.map_cons, List.sum_cons, Int64.ofInt_add,
      Int64.ofInt_toInt, Int64.add_assoc]

/-- The value the one-lock loop gives a row's entry: the rows filed under the same group, the first
with the others merged into it. -/
def groupUpdate (r : Router) (q : Query) (row : RowMap) (o : Option RowMap) : RowMap :=
  match o with
  | none => id row
  | some cur => mergeInto r q cur row

/-- The entry of a group after the one-lock loop over its rows: none for no rows, else the first row
with the others merged into it. -/
theorem foldl_groupUpdate (rows : List RowMap) :
    ∀ (o : Option RowMap), rows.foldl (fun o row => some (groupUpdate r q row o)) o =
      match o with
      | none => (match rows with
        | [] => none
        | row :: rows => some (rows.foldl (mergeInto r q) row))
      | some cur => some (rows.foldl (mergeInto r q) cur) := by
  induction rows with
  | nil => intro o; cases o <;> rfl
  | cons row rows ih =>
    intro o
    rw [List.foldl_cons, ih]
    cases o <;> rfl

variable (groupingCol intConv) in
/-- The one-lock loop of the shard goroutines over `rows`, looked up at a group: the rows of the
group, the first with the others merged into it. -/
theorem find?_foldl_seqStep (rows : List RowMap) (k : Untyped) :
    GoMap.find? Untyped.interfaceEq (rows.foldl (LockedMap.seqStep Untyped.interfaceEq
        (groupKey groupingCol intConv) id (mergeInto r q)) []) k =
      match rows.filter fun row => (groupKey groupingCol intConv row).interfaceEq k with
      | [] => none
      | row :: rows => some (rows.foldl (mergeInto r q) row) := by
  have hfold := GoMap.find?_foldl_upsert Untyped.keyEq_interfaceEq (groupKey groupingCol intConv)
    (groupUpdate r q) k rows []
  rw [GoMap.find?_nil] at hfold
  unfold LockedMap.seqStep
  exact hfold.trans (foldl_groupUpdate _ none)

/-- The summed fields of a group's entry: the `int64` sums over its rows. -/
theorem sumValue_foldl_mergeInto (hq : IntegerSums r q) {row : RowMap} {rows : List RowMap}
    (hrows : ∀ row' ∈ row :: rows, ∀ c ∈ sumFields q, IsNumberField row' c) {c : String}
    (hc : c ∈ sumFields q) :
    sumValue ((rows.foldl (mergeInto r q) row).get? c) =
      Int64.ofInt (((row :: rows).map fun row' => (sumValue (row'.get? c)).toInt).sum) := by
  rw [foldl_mergeInto hq hc rows row (fun c hc => (hrows row List.mem_cons_self c hc).isSumField)
      fun row' h => hrows row' (List.mem_cons_of_mem row h),
    foldl_add_int64, List.map_cons, List.sum_cons, Int64.ofInt_add, Int64.ofInt_toInt]

end Totals

section Runs

variable {r : Router} {q : Query} {groupingCol : String} {intConv : Bool} {n : Nat}
  {streams : Fin n → List RowMap}

/-- **The router's merge of a grouped query.** For any rows the shards stream, when the aggregates
are over integer columns, every run of the shard goroutines that ends with all of them done leaves
one entry per group value (no two equal under Go's `==`), an entry for the group of every row, and
in every entry each summed field is the `int64` sum of that field over all the rows of the group,
from all shards. -/
theorem handleQuery_groups_sum_every_row {s : LockedMap.State Untyped RowMap RowMap n}
    (hq : IntegerSums r q) (hrows : ∀ w, ∀ row ∈ streams w, ShardRow q groupingCol intConv row)
    (hrun : Relation.ReflTransGen (MergeStep r q groupingCol intConv) (LockedMap.init [] streams) s)
    (hdone : LockedMap.Done s) :
    (s.map.map (·.1)).Pairwise (fun a b => a.interfaceEq b = false) ∧
      (∀ w, ∀ row ∈ streams w,
        ∃ e ∈ s.map, e.1.interfaceEq (groupKey groupingCol intConv row) = true) ∧
      ∀ e ∈ s.map, ∀ c ∈ sumFields q, sumValue (e.2.get? c) = Int64.ofInt
        ((((List.finRange n).flatMap streams).filter fun row =>
          (groupKey groupingCol intConv row).interfaceEq e.1).map
            fun row => (sumValue (row.get? c)).toInt).sum := by
  obtain ⟨L, hperm, hmap⟩ := LockedMap.map_of_done hrun hdone
  -- the rows merged are the rows the shards sent
  have hmem : ∀ row, row ∈ L ↔ ∃ w, row ∈ streams w := by
    intro row
    rw [hperm.mem_iff, List.mem_flatMap]
    simp
  have hL : ∀ row ∈ L, ShardRow q groupingCol intConv row := by
    intro row h
    obtain ⟨w, hw⟩ := (hmem row).mp h
    exact hrows w row hw
  have hrefl : ∀ row ∈ L,
      (groupKey groupingCol intConv row).interfaceEq (groupKey groupingCol intConv row) = true := by
    intro row h
    obtain ⟨k, hk, hkk⟩ := (hL row h).group
    rwa [groupKey, hk]
  have hpair : (s.map.map (·.1)).Pairwise (fun a b => a.interfaceEq b = false) := by
    rw [hmap]
    exact GoMap.pairwise_keys_foldl_upsert (groupKey groupingCol intConv) (groupUpdate r q) L
      List.Pairwise.nil
  refine ⟨hpair, fun w row hrow => ?_, fun e he c hc => ?_⟩
  · -- the row's own group finds an entry
    have hrowL : row ∈ L := (hmem row).mpr ⟨w, hrow⟩
    have hfilter : row ∈ L.filter fun row' =>
        (groupKey groupingCol intConv row').interfaceEq (groupKey groupingCol intConv row) :=
      List.mem_filter.mpr ⟨hrowL, hrefl row hrowL⟩
    have hfind := find?_foldl_seqStep (r := r) (q := q) groupingCol intConv L
      (groupKey groupingCol intConv row)
    rw [← hmap] at hfind
    obtain ⟨row₀, rows, hcons⟩ := List.exists_cons_of_ne_nil (List.ne_nil_of_mem hfilter)
    rw [hcons] at hfind
    obtain ⟨e, he, heq, -⟩ := GoMap.exists_of_find?_eq_some _ hfind
    exact ⟨e, he, heq⟩
  · -- the entry's key is the group of a row, so it finds the entry itself
    have hkey : e.1 ∈ (L.foldl (LockedMap.seqStep Untyped.interfaceEq
        (groupKey groupingCol intConv) id (mergeInto r q)) []).map (·.1) := by
      rw [← hmap]
      exact List.mem_map_of_mem he
    rcases @GoMap.mem_keys_foldl_upsert _ _ _ Untyped.interfaceEq (groupKey groupingCol intConv)
      (groupUpdate r q) _ L [] hkey with hnil | ⟨row, hrow, hrowkey⟩
    · cases hnil
    have hself := GoMap.find?_of_mem hpair he (hrowkey ▸ hrefl row hrow)
    have hfind := find?_foldl_seqStep (r := r) (q := q) groupingCol intConv L e.1
    rw [← hmap, hself] at hfind
    -- the group's rows, in the order the map's lock was taken
    have hgroup : row ∈ L.filter fun row' => (groupKey groupingCol intConv row').interfaceEq e.1 :=
      List.mem_filter.mpr ⟨hrow, hrowkey ▸ hrefl row hrow⟩
    obtain ⟨row₀, rows, hcons⟩ := List.exists_cons_of_ne_nil (List.ne_nil_of_mem hgroup)
    rw [hcons, Option.some.injEq] at hfind
    have hnumbers : ∀ row' ∈ row₀ :: rows, ∀ c ∈ sumFields q, IsNumberField row' c := by
      intro row' h'
      rw [← hcons] at h'
      exact (hL row' (List.mem_of_mem_filter h')).numbers
    rw [hfind, sumValue_foldl_mergeInto hq hnumbers hc, ← hcons]
    exact congrArg Int64.ofInt ((hperm.filter _).map _).sum_eq

/-- Two shards, one row each, in the same `country` group. -/
def usSchema : Schema :=
  ⟨Column.make "at" .uint32, [{ Column.make "country" .uint8 with string := true }],
    [Column.make "clicks" .uint8], 1000, 3600 * 1000000000, false, "", ⟨false, 0⟩⟩

def usRouter : Router := ⟨usSchema, ["a:9000", "b:9000"]⟩

def usQuery : Query := ⟨[⟨.sum, "clicks", "clicks"⟩], [⟨.none, "country", "country"⟩], []⟩

def usRow (clicks count : Nat) : RowMap :=
  ⟨[("country", .string "us"), ("clicks", .float64 (F64.ofNat clicks)),
    ("rowCount", .float64 (F64.ofNat count))], by simp⟩

def usStreams : Fin 2 → List RowMap
  | 0 => [usRow 3 1]
  | 1 => [usRow 4 2]

def usMerged : LockedMap.State Untyped RowMap RowMap 2 :=
  let next := LockedMap.next Untyped.interfaceEq (groupKey "country" false) id
    (mergeInto usRouter usQuery)
  next (next (next (next (LockedMap.init [] usStreams) (.lookup 0)) (.lookup 1)) (.lockEntry 1))
    (.merge 1)

theorem handleQuery_groups_sum_every_row_us :
    IntegerSums usRouter usQuery ∧
      (∀ w, ∀ row ∈ usStreams w, ShardRow usQuery "country" false row) ∧
      Relation.ReflTransGen (MergeStep usRouter usQuery "country" false)
        (LockedMap.init [] usStreams) usMerged ∧
      LockedMap.Done usMerged ∧
      (usMerged.map.map (·.1)).Pairwise (fun a b => a.interfaceEq b = false) ∧
      (∀ w, ∀ row ∈ usStreams w,
        ∃ e ∈ usMerged.map, e.1.interfaceEq (groupKey "country" false row) = true) ∧
      ∀ e ∈ usMerged.map, ∀ c ∈ sumFields usQuery, sumValue (e.2.get? c) = Int64.ofInt
        ((((List.finRange 2).flatMap usStreams).filter fun row =>
          (groupKey "country" false row).interfaceEq e.1).map
            fun row => (sumValue (row.get? c)).toInt).sum := by
  have hq : IntegerSums usRouter usQuery := by
    refine ⟨fun agg hagg => ?_, by simp [sumFields, usQuery]⟩
    simp only [usQuery, List.mem_singleton] at hagg
    subst hagg
    exact ⟨.uint8, rfl, rfl⟩
  have hrows : ∀ w, ∀ row ∈ usStreams w, ShardRow usQuery "country" false row := by
    intro w row hrow
    match w with
    | 0 | 1 =>
      simp only [usStreams, List.mem_singleton] at hrow
      subst hrow
      refine ⟨fun c hc => ?_, ⟨_, rfl, rfl⟩⟩
      simp only [sumFields, usQuery, List.map_cons, List.map_nil, List.cons_append,
        List.nil_append, List.mem_cons, List.not_mem_nil, or_false] at hc
      rcases hc with rfl | rfl <;> exact .inr ⟨_, rfl⟩
  -- shard 0 adds the group, shard 1 finds it, locks it and merges its row
  have hrun : Relation.ReflTransGen (MergeStep usRouter usQuery "country" false)
      (LockedMap.init [] usStreams) usMerged := by
    refine .head ⟨.lookup 0, ⟨rfl, List.cons_ne_nil _ _, fun _ => rfl⟩, rfl⟩ ?_
    refine .head ⟨.lookup 1, ⟨rfl, List.cons_ne_nil _ _, fun v => ?_⟩, rfl⟩ ?_
    · match v with | 0 | 1 => rfl
    refine .head ⟨.lockEntry 1, ⟨0, usRow 4 2, rfl, fun v => ?_⟩, rfl⟩ ?_
    · match v with | 0 | 1 => rfl
    exact .single ⟨.merge 1, ⟨0, usRow 4 2, rfl⟩, rfl⟩
  have hdone : LockedMap.Done usMerged := fun w => by
    match w with | 0 | 1 => exact ⟨rfl, rfl⟩
  exact ⟨hq, hrows, hrun, hdone, handleQuery_groups_sum_every_row hq hrows hrun hdone⟩

/-- **The router's merge never blocks.** From any state of the shard goroutines, either all of them
are done or one of them can take a step; and there is no infinite run. -/
theorem handleQuery_merge_never_blocks (s : LockedMap.State Untyped RowMap RowMap n) :
    (LockedMap.Done s ∨ ∃ t, MergeStep r q groupingCol intConv s t) ∧
      WellFounded (flip (MergeStep r q groupingCol intConv) :
        LockedMap.State Untyped RowMap RowMap n → _ → Prop) := by
  refine ⟨?_, LockedMap.step_wellFounded⟩
  by_cases hdone : LockedMap.Done s
  · exact .inl hdone
  · obtain ⟨e, he⟩ := LockedMap.exists_enabled hdone
    exact .inr ⟨_, e, he, rfl⟩

end Runs

end Gumshoe
