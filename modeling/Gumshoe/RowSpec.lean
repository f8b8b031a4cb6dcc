import Gumshoe.Row

/-!
# What serializing a row does

The inversion lemmas of `serializeRowMap` and of its two loops, and what they keep.

* `DictsIndexed` — the dictionary invariant of the static and memtable dictionary lists: each is
  indexed (`DimensionTable.Indexed`), and a memtable dictionary holds no string its static
  dictionary holds. Serializing a row keeps it (`DictsIndexed.serializeRowMap`), whatever the
  row's outcome: `setDimensionValue` only looks a string up in the memtable dictionary, adding it
  when new, after the static dictionary failed to find it (`setDimensionValue_dict`).
* `length_serializeRowMap` — an accepted row has `DimensionWidth` dimension bytes and
  `MetricWidth` metric bytes.
-/

namespace Gumshoe

open Bytes

/-! ## Dictionaries -/

/-- The dictionary invariant of a pair of dictionary lists: every static dictionary is indexed;
every memtable dictionary is indexed, has a static dictionary at its column, and holds none of
its strings. -/
structure DictsIndexed (static mem : List (Option DimensionTable)) : Prop where
  static_indexed : ∀ j st, static.getD j none = some st → st.Indexed
  mem_indexed : ∀ j m, mem.getD j none = some m → m.Indexed
  mem_static : ∀ j m, mem.getD j none = some m →
    ∃ st, static.getD j none = some st ∧ ∀ v ∈ m.values, v ∉ st.values

/-- What one call can do to the memtable dictionaries: nothing, or look a string up in column
`index`'s, adding it when new, after the static dictionary of that column lacked it. -/
def DictStep (static mem mem' : List (Option DimensionTable)) (index : Nat) : Prop :=
  mem' = mem ∨ ∃ str st m, static.getD index none = some st ∧ st.get str = none ∧
    mem.getD index none = some m ∧ mem' = mem.set index (some (m.getAndMaybeSet str).2)

theorem getD_set_self {α : Type} {l : List (Option α)} {i : Nat} (a : Option α)
    (hi : i < l.length) : (l.set i a).getD i none = a := by
  simp [List.getD_eq_getElem?_getD, hi]

theorem getD_set_of_ne {α : Type} {l : List (Option α)} {i j : Nat} (a : Option α) (h : i ≠ j) :
    (l.set i a).getD j none = l.getD j none := by
  simp [List.getD_eq_getElem?_getD, List.getElem?_set_ne h]

theorem lt_length_of_getD_eq_some {α : Type} {l : List (Option α)} {i : Nat} {a : α}
    (h : l.getD i none = some a) : i < l.length := by
  by_contra hle
  rw [List.getD_eq_default _ _ (by omega)] at h
  cases h

/-- Each step keeps the dictionary invariant. -/
theorem DictsIndexed.step {static mem mem' : List (Option DimensionTable)} {index : Nat}
    (hd : DictsIndexed static mem) (hstep : DictStep static mem mem' index) :
    DictsIndexed static mem' := by
  rcases hstep with rfl | ⟨str, st, m, hst, hget, hm, rfl⟩
  · exact hd
  have hlt := lt_length_of_getD_eq_some hm
  have hnotin : str ∉ st.values :=
    (DimensionTable.get_eq_none_iff (hd.static_indexed _ _ hst)).mp hget
  -- the only dictionary that changes is column `index`'s, which gains at most `str`
  have hvalues : ∀ v ∈ (m.getAndMaybeSet str).2.values, v = str ∨ v ∈ m.values := by
    intro v hv
    cases hmget : m.get str with
    | some i => rw [DimensionTable.getAndMaybeSet_of_get hmget] at hv; exact .inr hv
    | none =>
      rw [(DimensionTable.getAndMaybeSet_of_get_none hmget).2.1, List.mem_append,
        List.mem_singleton] at hv
      exact hv.symm
  refine ⟨hd.static_indexed, fun j m' hm' => ?_, fun j m' hm' => ?_⟩
  · by_cases hj : index = j
    · subst hj
      rw [getD_set_self _ hlt] at hm'
      cases hm'
      exact (hd.mem_indexed _ _ hm).getAndMaybeSet str
    · rw [getD_set_of_ne _ hj] at hm'
      exact hd.mem_indexed _ _ hm'
  · by_cases hj : index = j
    · subst hj
      rw [getD_set_self _ hlt] at hm'
      cases hm'
      obtain ⟨st', hst', hdisj⟩ := hd.mem_static _ _ hm
      rw [hst] at hst'
      cases hst'
      refine ⟨st, hst, fun v hv => ?_⟩
      rcases hvalues v hv with rfl | hv
      · exact hnotin
      · exact hdisj v hv
    · rw [getD_set_of_ne _ hj] at hm'
      exact hd.mem_static _ _ hm'

section Serialize

variable {fmtG : F64 → String} {s : Schema} {static : List (Option DimensionTable)}

/-- `setDimensionValue` touches the memtable dictionaries only to look up a string the static
dictionary lacks. -/
theorem setDimensionValue_dict (mem : List (Option DimensionTable)) (dims : List UInt8)
    (index : Nat) (column : DimensionColumn) (value : Untyped) :
    DictStep static mem (setDimensionValue fmtG s static mem dims index column value).2 index := by
  by_cases hstring : column.string
  · cases value with
    | string str =>
      cases hst : static.getD index none with
      | none =>
        simp only [setDimensionValue, hstring, hst, if_true]
        exact .inl rfl
      | some st =>
        cases hget : st.get str with
        | some i =>
          simp only [setDimensionValue, hstring, hst, hget, if_true]
          split <;> exact .inl rfl
        | none =>
          cases hm : mem.getD index none with
          | none =>
            simp only [setDimensionValue, hstring, hst, hget, hm, if_true]
            exact .inl rfl
          | some m =>
            simp only [setDimensionValue, hstring, hst, hget, hm, if_true]
            -- the string is looked up, and added if new, in the memtable dictionary
            split <;> exact .inr ⟨str, st, m, hst, hget, hm, rfl⟩
    | nil => exact .inl rfl
    | _ =>
      simp only [setDimensionValue, hstring, if_true]
      exact .inl rfl
  · rw [Bool.not_eq_true] at hstring
    cases value with
    | nil => exact .inl rfl
    | float64 f =>
      simp only [setDimensionValue, hstring, Bool.false_eq_true, if_false]
      split <;> exact .inl rfl
    | _ =>
      simp only [setDimensionValue, hstring, Bool.false_eq_true, if_false]
      exact .inl rfl

/-- `idx` is the index `setDimensionValue` gives the string `str` of column `index`: the static
dictionary's index, or the memtable dictionary's (after the call) offset by the static
dictionary's length, in `uint32` arithmetic. -/
def StringIndex (st : DimensionTable) (mem : List (Option DimensionTable)) (index : Nat)
    (str : String) (idx : UInt32) : Prop :=
  st.get str = some idx ∨ st.get str = none ∧
    ∃ m i, mem.getD index none = some m ∧ m.get str = some i ∧ idx = i + UInt32.ofNat st.values.length

/-- What an accepted dimension value writes: the nil bit, a number in the column's type, or the
string's dictionary index, which fits the column. -/
theorem setDimensionValue_ok {mem mem' : List (Option DimensionTable)} {dims dims' : List UInt8}
    {index : Nat} {column : DimensionColumn} {value : Untyped}
    (h : setDimensionValue fmtG s static mem dims index column value = (.ok dims', mem')) :
    (value = .nil ∧ dims' = setNil dims index) ∨
      (column.string = false ∧ ∃ f, value = .float64 f ∧
        dims' = setRowValue dims (s.layout.dimensionOffsets.getD index 0) column.type f) ∨
      (column.string = true ∧ ∃ str st idx, value = .string str ∧ static.getD index none = some st ∧
        StringIndex st mem' index str idx ∧
        (F64.ofNat idx.toNat).value.gtInt (typeMaxes column.type) = false ∧
        dims' = setRowValue dims (s.layout.dimensionOffsets.getD index 0) column.type
          (F64.ofNat idx.toNat)) := by
  by_cases hstring : column.string
  · cases value with
    | nil =>
      simp only [setDimensionValue, Prod.mk.injEq, Go.ok.injEq] at h
      exact .inl ⟨rfl, h.1.symm⟩
    | string str =>
      cases hst : static.getD index none with
      | none =>
        simp only [setDimensionValue, hstring, hst, if_true] at h
        cases h
      | some st =>
        cases hget : st.get str with
        | some i =>
          simp only [setDimensionValue, hstring, hst, hget, if_true] at h
          split at h
          · cases h
          · rename_i hfit
            simp only [Prod.mk.injEq, Go.ok.injEq] at h
            obtain ⟨rfl, rfl⟩ := h
            exact .inr (.inr ⟨hstring, str, st, i, rfl, rfl, .inl hget, by simpa using hfit, rfl⟩)
        | none =>
          cases hm : mem.getD index none with
          | none =>
            simp only [setDimensionValue, hstring, hst, hget, hm, if_true] at h
            cases h
          | some m =>
            simp only [setDimensionValue, hstring, hst, hget, hm, if_true] at h
            split at h
            · cases h
            · rename_i hfit
              simp only [Prod.mk.injEq, Go.ok.injEq] at h
              obtain ⟨rfl, rfl⟩ := h
              -- the memtable dictionary, after the call, finds the string at its index
              have hindex : StringIndex st (mem.set index (some (m.getAndMaybeSet str).2)) index str
                  ((m.getAndMaybeSet str).1.1 + UInt32.ofNat st.values.length) :=
                .inr ⟨hget, _, _, getD_set_self _ (lt_length_of_getD_eq_some hm),
                  DimensionTable.get_getAndMaybeSet m str, rfl⟩
              exact .inr (.inr ⟨hstring, str, st, _, rfl, rfl, hindex, by simpa using hfit, rfl⟩)
    | _ => simp [setDimensionValue, hstring] at h
  · rw [Bool.not_eq_true] at hstring
    cases value with
    | nil =>
      simp only [setDimensionValue, Prod.mk.injEq, Go.ok.injEq] at h
      exact .inl ⟨rfl, h.1.symm⟩
    | float64 f =>
      simp only [setDimensionValue, hstring, Bool.false_eq_true, if_false] at h
      split at h
      · cases h
      · simp only [Prod.mk.injEq, Go.ok.injEq] at h
        exact .inr (.inl ⟨hstring, f, rfl, h.1.symm⟩)
    | _ => simp [setDimensionValue, hstring] at h

theorem length_setDimensionValue {mem mem' : List (Option DimensionTable)}
    {dims dims' : List UInt8} {index : Nat} {column : DimensionColumn} {value : Untyped}
    (hi : index < s.dimensionColumns.length) (hcol : column = s.dimensionColumns[index])
    (hlen : dims.length = s.layout.dimensionWidth)
    (h : setDimensionValue fmtG s static mem dims index column value = (.ok dims', mem')) :
    dims'.length = s.layout.dimensionWidth := by
  have hfits : s.layout.dimensionOffsets.getD index 0 + typeWidths column.type ≤ dims.length := by
    rw [hlen, ← column.width_eq, hcol]
    exact (Schema.dimensionCell_bounds hi).2
  rcases setDimensionValue_ok h with ⟨-, rfl⟩ | ⟨-, f, -, rfl⟩ | ⟨-, str, st, idx, -, -, -, -, rfl⟩
  · rw [setNil, length_setBit, hlen]
  · rw [length_setRowValue hfits, hlen]
  · rw [length_setRowValue hfits, hlen]

/-- The dimension loop with the column's value read from the row: present, or nil and counted
missing. -/
theorem serializeDimensions_cons (rowMap : RowMap) (i : Nat) (col : DimensionColumn)
    (cols : List DimensionColumn) (mem : List (Option DimensionTable)) (dims : List UInt8)
    (missing : Nat) :
    serializeDimensions fmtG s static rowMap i (col :: cols) mem dims missing =
      match setDimensionValue fmtG s static mem dims i col ((rowMap.get? col.name).getD .nil) with
      | (.ok dims', mem') => serializeDimensions fmtG s static rowMap (i + 1) cols mem' dims'
          (if (rowMap.get? col.name).isSome then missing else missing + 1)
      | (.error e, mem') => (.error e, mem')
      | (.panic p, mem') => (.panic p, mem') := by
  rw [serializeDimensions]
  cases rowMap.get? col.name <;> rfl

/-- A property of the memtable dictionaries that every `DictStep` keeps holds after the
dimension loop, whatever its outcome. -/
theorem serializeDimensions_keeps {P : List (Option DimensionTable) → Prop}
    (hP : ∀ mem mem' index, DictStep static mem mem' index → P mem → P mem') {rowMap : RowMap}
    {mem : List (Option DimensionTable)} (hmem : P mem) (i : Nat) (cols : List DimensionColumn)
    (dims : List UInt8) (missing : Nat) :
    P (serializeDimensions fmtG s static rowMap i cols mem dims missing).2 := by
  induction cols generalizing i mem dims missing with
  | nil => exact hmem
  | cons col cols ih =>
    rw [serializeDimensions_cons]
    have hstep := hP _ _ _ (@setDimensionValue_dict fmtG s static mem dims i col
      ((rowMap.get? col.name).getD .nil)) hmem
    split
    · rename_i dims' mem' heq
      rw [heq] at hstep
      exact ih hstep _ _ _
    · rename_i e mem' heq
      rw [heq] at hstep
      exact hstep
    · rename_i p mem' heq
      rw [heq] at hstep
      exact hstep

/-- An accepted row's dimension bytes keep `DimensionWidth`. -/
theorem length_serializeDimensions {rowMap : RowMap} {i : Nat} {cols : List DimensionColumn}
    {mem mem' : List (Option DimensionTable)} {dims dims' : List UInt8} {missing missing' : Nat}
    (hcols : cols = s.dimensionColumns.drop i) (hlen : dims.length = s.layout.dimensionWidth)
    (h : Gumshoe.serializeDimensions fmtG s static rowMap i cols mem dims missing =
      (.ok (dims', missing'), mem')) :
    dims'.length = s.layout.dimensionWidth := by
  induction cols generalizing i mem dims missing with
  | nil =>
    simp only [Gumshoe.serializeDimensions, Prod.mk.injEq, Go.ok.injEq] at h
    rw [← h.1.1]
    exact hlen
  | cons col cols ih =>
    obtain ⟨hi, hcol, htail⟩ := cons_eq_drop hcols
    rw [serializeDimensions_cons] at h
    split at h
    · rename_i dims₁ mem₁ heq
      exact ih htail (length_setDimensionValue hi hcol hlen heq) h
    · cases h
    · cases h

/-- An accepted metric value writes a number in the column's type. -/
theorem setMetricValue_ok {metrics metrics' : List UInt8} {index : Nat} {column : MetricColumn}
    {value : Untyped} (h : setMetricValue fmtG s metrics index column value = .ok metrics') :
    ∃ f, metrics' = setRowValue metrics (s.layout.metricOffsets.getD index 0) column.type f := by
  unfold setMetricValue at h
  split at h
  · exact ⟨_, (Go.ok.inj h).symm⟩
  · split at h
    · cases h
    · exact ⟨_, (Go.ok.inj h).symm⟩
  · cases h

theorem length_setMetricValue {metrics metrics' : List UInt8} {index : Nat} {column : MetricColumn}
    {value : Untyped} (hi : index < s.metricColumns.length) (hcol : column = s.metricColumns[index])
    (hlen : metrics.length = s.layout.metricWidth)
    (h : setMetricValue fmtG s metrics index column value = .ok metrics') :
    metrics'.length = s.layout.metricWidth := by
  obtain ⟨f, rfl⟩ := setMetricValue_ok h
  have hfits : s.layout.metricOffsets.getD index 0 + typeWidths column.type ≤ metrics.length := by
    rw [hlen, ← column.width_eq, hcol]
    exact Schema.metricCell_bounds hi
  rw [length_setRowValue hfits, hlen]

/-- The metric loop with the column's value read from the row: present, or `0.0` and counted
missing. -/
theorem serializeMetrics_cons (rowMap : RowMap) (i : Nat) (col : MetricColumn)
    (cols : List MetricColumn) (metrics : List UInt8) (missing : Nat) :
    serializeMetrics fmtG s rowMap i (col :: cols) metrics missing =
      match setMetricValue fmtG s metrics i col ((rowMap.get? col.name).getD (.float64 ⟨0⟩)) with
      | .ok metrics' => serializeMetrics fmtG s rowMap (i + 1) cols metrics'
          (if (rowMap.get? col.name).isSome then missing else missing + 1)
      | .error e => .error e
      | .panic p => .panic p := by
  rw [serializeMetrics]
  cases rowMap.get? col.name <;> rfl

/-- An accepted row's metric bytes keep `MetricWidth`. -/
theorem length_serializeMetrics {rowMap : RowMap} {i : Nat} {cols : List MetricColumn}
    {metrics metrics' : List UInt8} {missing missing' : Nat}
    (hcols : cols = s.metricColumns.drop i) (hlen : metrics.length = s.layout.metricWidth)
    (h : serializeMetrics fmtG s rowMap i cols metrics missing = .ok (metrics', missing')) :
    metrics'.length = s.layout.metricWidth := by
  induction cols generalizing i metrics missing with
  | nil =>
    simp only [serializeMetrics, Go.ok.injEq, Prod.mk.injEq] at h
    rw [← h.1]
    exact hlen
  | cons col cols ih =>
    obtain ⟨hi, hcol, htail⟩ := cons_eq_drop hcols
    rw [serializeMetrics_cons] at h
    split at h
    · rename_i metrics₁ heq
      exact ih htail (length_setMetricValue hi hcol hlen heq) h
    · cases h
    · cases h

variable (fmtG s static) in
/-- The dimension loop `serializeRowMap` runs, over all the dimension columns from zeroed bytes. -/
def serializeRowMapDimensions (rowMap : RowMap) (mem : List (Option DimensionTable)) :
    Go (List UInt8 × Nat) × List (Option DimensionTable) :=
  serializeDimensions fmtG s static rowMap 0 s.dimensionColumns mem
    (List.replicate s.layout.dimensionWidth 0) 0

/-- `serializeRowMap` changes the memtable dictionaries only through its dimension loop. -/
theorem serializeRowMap_dict (rowMap : RowMap) (mem : List (Option DimensionTable)) :
    (serializeRowMap fmtG s static rowMap mem).2 = mem ∨
      (serializeRowMap fmtG s static rowMap mem).2 =
        (serializeRowMapDimensions fmtG s static rowMap mem).2 := by
  unfold serializeRowMap serializeRowMapDimensions
  cases hts : rowMap.get? s.timestampColumn.name with
  | none => simp only [hts, true_or]
  | some v =>
    cases v with
    | float64 t =>
      simp only [hts]
      -- the dictionaries are the dimension loop's, whatever the metric loop does
      rcases hsd : serializeDimensions fmtG s static rowMap 0 s.dimensionColumns mem
        (List.replicate s.layout.dimensionWidth 0) 0 with ⟨_ | _ | _, mem'⟩
      · simp only
        split
        · split <;> exact .inr rfl
        · exact .inr rfl
        · exact .inr rfl
      · exact .inr rfl
      · exact .inr rfl
    | _ => simp only [hts, true_or]

/-- A property of the memtable dictionaries that every `DictStep` keeps holds after
serializing a row, whatever its outcome. -/
theorem serializeRowMap_keeps {P : List (Option DimensionTable) → Prop}
    (hP : ∀ mem mem' index, DictStep static mem mem' index → P mem → P mem')
    {mem : List (Option DimensionTable)} (hmem : P mem) (rowMap : RowMap) :
    P (Gumshoe.serializeRowMap fmtG s static rowMap mem).2 := by
  rcases @serializeRowMap_dict fmtG s static rowMap mem with h | h <;> rw [h]
  · exact hmem
  · exact serializeDimensions_keeps hP hmem _ _ _ _

/-- Serializing a row keeps the dictionary invariant, whatever its outcome. -/
theorem DictsIndexed.serializeRowMap {mem : List (Option DimensionTable)}
    (hd : DictsIndexed static mem) (rowMap : RowMap) :
    DictsIndexed static (Gumshoe.serializeRowMap fmtG s static rowMap mem).2 :=
  serializeRowMap_keeps (fun _ _ _ hstep hd => hd.step hstep) hd rowMap

/-- A step keeps every dictionary the memtable has. -/
theorem DictStep.isSome {static mem mem' : List (Option DimensionTable)} {index : Nat}
    (hstep : DictStep static mem mem' index) {j : Nat} (hj : (mem.getD j none).isSome) :
    (mem'.getD j none).isSome := by
  rcases hstep with rfl | ⟨str, st, m, -, -, hm, rfl⟩
  · exact hj
  · by_cases hij : index = j
    · subst hij
      rw [getD_set_self _ (lt_length_of_getD_eq_some hm)]
      rfl
    · rw [getD_set_of_ne _ hij]
      exact hj

/-- An accepted row is its two loops' bytes. -/
theorem serializeRowMap_ok {rowMap : RowMap} {mem mem' : List (Option DimensionTable)}
    {row : InsertionRow} (h : Gumshoe.serializeRowMap fmtG s static rowMap mem = (.ok row, mem')) :
    (∃ missing, serializeRowMapDimensions fmtG s static rowMap mem =
        (.ok (row.dimensions, missing), mem') ∧
      ∃ missing', serializeMetrics fmtG s rowMap 0 s.metricColumns
        (List.replicate s.layout.metricWidth 0) missing = .ok (row.metrics, missing')) := by
  unfold Gumshoe.serializeRowMap at h
  unfold serializeRowMapDimensions
  cases hts : rowMap.get? s.timestampColumn.name with
  | none =>
    simp only [hts] at h
    cases h
  | some v =>
    cases v with
    | float64 t =>
      simp only [hts] at h
      rcases hsd : serializeDimensions fmtG s static rowMap 0 s.dimensionColumns mem
        (List.replicate s.layout.dimensionWidth 0) 0 with ⟨_ | _ | _, mem₁⟩
      · rename_i dm
        obtain ⟨dims, missing⟩ := dm
        simp only [hsd] at h
        split at h
        · rename_i metrics missing' hmetrics
          split at h
          · cases h
          · simp only [Prod.mk.injEq, Go.ok.injEq] at h
            obtain ⟨rfl, rfl⟩ := h
            exact ⟨missing, rfl, missing', hmetrics⟩
        · cases h
        · cases h
      · simp only [hsd] at h
        cases h
      · simp only [hsd] at h
        cases h
    | _ =>
      simp only [hts] at h
      cases h

/-- An accepted row has `DimensionWidth` dimension bytes and `MetricWidth` metric bytes. -/
theorem length_serializeRowMap {rowMap : RowMap} {mem mem' : List (Option DimensionTable)}
    {row : InsertionRow} (h : Gumshoe.serializeRowMap fmtG s static rowMap mem = (.ok row, mem')) :
    row.dimensions.length = s.layout.dimensionWidth ∧ row.metrics.length = s.layout.metricWidth := by
  obtain ⟨missing, hdims, missing', hmetrics⟩ := serializeRowMap_ok h
  exact ⟨length_serializeDimensions List.drop_zero.symm List.length_replicate hdims,
    length_serializeMetrics List.drop_zero.symm List.length_replicate hmetrics⟩

end Serialize

end Gumshoe
