import Gumshoe.Schema

/-!
# Dimension tables

`dimension_table.go`: the dictionary of a string dimension column. A row stores a string as its
index in the dictionary; the memtable's dictionary holds the strings first seen since the last
flush, and its indices are offset by the size of the static dictionary (`row.go`).

`Indexed t` is the dictionary invariant: the values are distinct, `Size` is their number, and
`ValueToIndex` maps each value to its position, as a `uint32`. `newDimensionTable` builds an
indexed table from distinct values (`indexed_newDimensionTable`) and `GetAndMaybeSet` keeps a
table indexed (`Indexed.getAndMaybeSet`), appending a value it has not seen
(`getAndMaybeSet_values`).
-/

namespace Gumshoe

/-- `DimensionTable`. `ValueToIndex` is a Go map that is only ever looked up, kept here as its
lookup function. -/
structure DimensionTable where
  generation : Nat
  size : Nat
  values : List String
  valueToIndex : String → Option UInt32

/-- `newDimensionTable(generation, values)`: the loop `valueToIndex[value] = uint32(i)`. -/
def newDimensionTable (generation : Nat) (values : List String) : DimensionTable :=
  ⟨generation, values.length, values, assignIndices UInt32.ofNat (fun _ => none) 0 values⟩

/-- The empty table `&DimensionTable{ValueToIndex: make(map[string]uint32)}`. -/
def DimensionTable.empty : DimensionTable := ⟨0, 0, [], fun _ => none⟩

/-- `NewDimensionTablesForSchema`: an empty table for each string column, `nil` for the
others. -/
def newDimensionTablesForSchema (s : Schema) : List (Option DimensionTable) :=
  s.dimensionColumns.map fun col => if col.string then some DimensionTable.empty else none

namespace DimensionTable

/-- `Get`. -/
def get (t : DimensionTable) (s : String) : Option UInt32 := t.valueToIndex s

/-- `GetAndMaybeSet`: the index of `s`, appending `s` when it is new, and whether it existed. -/
def getAndMaybeSet (t : DimensionTable) (s : String) : (UInt32 × Bool) × DimensionTable :=
  match t.valueToIndex s with
  | some i => ((i, true), t)
  | none =>
    let i := UInt32.ofNat t.values.length
    ((i, false),
      { t with
        valueToIndex := fun v => if v = s then some i else t.valueToIndex v
        values := t.values ++ [s]
        size := t.size + 1 })

/-- The dictionary invariant. -/
structure Indexed (t : DimensionTable) : Prop where
  nodup : t.values.Nodup
  size_eq : t.size = t.values.length
  valueToIndex_eq : ∀ v, t.valueToIndex v = (t.values.idxOf? v).map UInt32.ofNat

theorem indexed_empty : Indexed empty :=
  ⟨List.nodup_nil, rfl, fun _ => rfl⟩

theorem idxOf?_append_singleton {l : List String} {s : String} (hs : s ∉ l) (v : String) :
    (l ++ [s]).idxOf? v = if v = s then some l.length else l.idxOf? v := by
  by_cases hv : v = s
  · subst hv
    rw [if_pos rfl, List.idxOf?_eq_some_iff]
    refine ⟨by simp, by simp, fun j hj heq => hs ?_⟩
    rw [List.getElem_append_left (by simpa using hj)] at heq
    exact heq ▸ List.getElem_mem _
  · rw [if_neg hv]
    cases h : l.idxOf? v with
    | none =>
      rw [List.idxOf?_eq_none_iff] at h ⊢
      simp [h, hv]
    | some k =>
      obtain ⟨hk, hkv, hbefore⟩ := List.idxOf?_eq_some_iff.mp h
      rw [List.idxOf?_eq_some_iff]
      refine ⟨by simp; omega, by rw [List.getElem_append_left hk]; exact hkv, fun j hj => ?_⟩
      rw [List.getElem_append_left (by omega)]
      exact hbefore j hj

/-- `GetAndMaybeSet` on a value the table holds changes nothing. -/
theorem getAndMaybeSet_of_get {t : DimensionTable} {s : String} {i : UInt32}
    (h : t.get s = some i) : t.getAndMaybeSet s = ((i, true), t) := by
  simp only [get] at h
  simp [getAndMaybeSet, h]

/-- `GetAndMaybeSet` on a new value appends it, at index `uint32(len(Values))`. -/
theorem getAndMaybeSet_of_get_none {t : DimensionTable} {s : String} (h : t.get s = none) :
    (t.getAndMaybeSet s).1 = (UInt32.ofNat t.values.length, false) ∧
      (t.getAndMaybeSet s).2.values = t.values ++ [s] ∧
      (t.getAndMaybeSet s).2.generation = t.generation := by
  simp only [get] at h
  simp [getAndMaybeSet, h]

/-- After `GetAndMaybeSet`, the table finds the string at the index it returned. -/
theorem get_getAndMaybeSet (t : DimensionTable) (s : String) :
    (t.getAndMaybeSet s).2.get s = some (t.getAndMaybeSet s).1.1 := by
  cases h : t.get s with
  | some i => rw [getAndMaybeSet_of_get h]; exact h
  | none =>
    simp only [get] at h
    simp [getAndMaybeSet, get, h]

/-- `GetAndMaybeSet` never shrinks a table. -/
theorem size_le_getAndMaybeSet (t : DimensionTable) (s : String) :
    t.size ≤ (t.getAndMaybeSet s).2.size := by
  unfold getAndMaybeSet
  split <;> simp

/-- In an indexed table a string's index is its position modulo `2 ^ 32`, so below the size. -/
theorem Indexed.toNat_lt_size {t : DimensionTable} (ht : Indexed t) {s : String} {i : UInt32}
    (h : t.get s = some i) : i.toNat < t.size := by
  rw [get, ht.valueToIndex_eq] at h
  obtain ⟨p, hp, rfl⟩ := Option.map_eq_some_iff.mp h
  have hlt : p < t.values.length := (List.idxOf?_eq_some_iff.mp hp).1
  rw [UInt32.toNat_ofNat', ht.size_eq]
  exact lt_of_le_of_lt (Nat.mod_le _ _) hlt

theorem get_eq_none_iff {t : DimensionTable} (ht : Indexed t) {s : String} :
    t.get s = none ↔ s ∉ t.values := by
  rw [get, ht.valueToIndex_eq, Option.map_eq_none_iff, List.idxOf?_eq_none_iff]

/-- `GetAndMaybeSet` keeps the dictionary invariant. -/
theorem Indexed.getAndMaybeSet {t : DimensionTable} (ht : Indexed t) (s : String) :
    Indexed (t.getAndMaybeSet s).2 := by
  cases h : t.get s with
  | some i => rw [getAndMaybeSet_of_get h]; exact ht
  | none =>
    have hs : s ∉ t.values := (get_eq_none_iff ht).mp h
    simp only [get] at h
    simp only [DimensionTable.getAndMaybeSet, h]
    refine ⟨?_, ?_, fun v => ?_⟩
    · exact List.nodup_append.mpr ⟨ht.nodup, List.nodup_singleton s, fun a ha b hb => by
        simp only [List.mem_singleton] at hb; exact hb ▸ fun h => hs (h ▸ ha)⟩
    · simp [ht.size_eq]
    · simp only
      rw [idxOf?_append_singleton hs]
      split <;> simp [ht.valueToIndex_eq]

/-- A table built from distinct values is indexed. -/
theorem indexed_newDimensionTable (generation : Nat) {values : List String} (h : values.Nodup) :
    Indexed (newDimensionTable generation values) := by
  refine ⟨h, rfl, fun v => ?_⟩
  simp only [newDimensionTable]
  rw [assignIndices_of_nodup UInt32.ofNat _ 0 h v]
  cases values.idxOf? v <;> simp

end DimensionTable

end Gumshoe
