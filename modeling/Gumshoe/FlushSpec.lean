import Gumshoe.Flush
import Mathlib.Order.Compare

/-!
# What a flush does

The inversion lemmas of `flush` and of its steps. Each says everything a successful call can
have done, so that the invariants of a run are proved from these lemmas and never from the
definitions.

* `scheduleJobs_fits`, `scheduleJobs_covers` — the walk over the two sorted key lists sends one
  job for each key, of the kind its occurrences ask for: a key only in the static table is
  reused, one only in the memtable is written from the tree, one in both is combined;
* `combineSortedMemStaticIntervals_ok` — on success, the new interval map has exactly the keys
  of the two lists, each holding what its job's writer returned;
* `combineDimensionTablesFrom_ok` — on success, each string column's dictionary is the static one,
  or a new generation holding the static strings followed by the memtable's, and the old
  dictionaries listed for cleanup are the static ones so replaced;
* `prepareFlush_plan` — a flush that gets to the hand-off built its table by the two combining
  steps, and cleans up the static intervals retention drops and those it combined;
* `flush_cases` — a flush either fails before the swap and leaves the database as it was, or
  swaps in the new static table and then either succeeds, with an empty memtable, or fails
  writing the metadata, with the memtable still full.
-/

namespace Gumshoe

open SortedMap

/-! ## The schedule -/

/-- The interval start a job is for. -/
def IntervalJob.key : IntervalJob → ℤ
  | .reuse k => k
  | .writeMem k => k
  | .writeCombined k => k

/-- The job's kind is the one its key's occurrences in the two lists ask for. -/
def IntervalJob.Fits (memKeys staticKeys : List ℤ) : IntervalJob → Prop
  | .reuse k => k ∈ staticKeys ∧ k ∉ memKeys
  | .writeMem k => k ∈ memKeys ∧ k ∉ staticKeys
  | .writeCombined k => k ∈ memKeys ∧ k ∈ staticKeys

namespace IntervalJob

variable {memKeys staticKeys : List ℤ} {job : IntervalJob}

theorem Fits.mem (h : job.Fits memKeys staticKeys) : job.key ∈ memKeys ++ staticKeys := by
  cases job with
  | reuse k => exact List.mem_append_right _ h.1
  | writeMem k => exact List.mem_append_left _ h.1
  | writeCombined k => exact List.mem_append_left _ h.1

/-- A static key below every memtable key does not change a job's kind. -/
theorem Fits.cons_static {k : ℤ} (h : job.Fits memKeys staticKeys) (hk : ∀ x ∈ memKeys, k < x) :
    job.Fits memKeys (k :: staticKeys) := by
  cases job with
  | reuse k' => exact ⟨List.mem_cons_of_mem _ h.1, h.2⟩
  | writeMem k' =>
    refine ⟨h.1, fun hmem => ?_⟩
    rcases List.mem_cons.mp hmem with rfl | hmem
    · exact lt_irrefl _ (hk _ h.1)
    · exact h.2 hmem
  | writeCombined k' => exact ⟨h.1, List.mem_cons_of_mem _ h.2⟩

/-- A memtable key below every static key does not change a job's kind. -/
theorem Fits.cons_mem {k : ℤ} (h : job.Fits memKeys staticKeys) (hk : ∀ x ∈ staticKeys, k < x) :
    job.Fits (k :: memKeys) staticKeys := by
  cases job with
  | reuse k' =>
    refine ⟨h.1, fun hmem => ?_⟩
    rcases List.mem_cons.mp hmem with rfl | hmem
    · exact lt_irrefl _ (hk _ h.1)
    · exact h.2 hmem
  | writeMem k' => exact ⟨List.mem_cons_of_mem _ h.1, h.2⟩
  | writeCombined k' => exact ⟨List.mem_cons_of_mem _ h.1, h.2⟩

/-- A key below every other key of both lists does not change a job's kind. -/
theorem Fits.cons_both {k : ℤ} (h : job.Fits memKeys staticKeys) (hmem : ∀ x ∈ memKeys, k < x)
    (hstatic : ∀ x ∈ staticKeys, k < x) : job.Fits (k :: memKeys) (k :: staticKeys) := by
  cases job with
  | reuse k' =>
    refine ⟨List.mem_cons_of_mem _ h.1, fun hk => ?_⟩
    rcases List.mem_cons.mp hk with rfl | hk
    · exact lt_irrefl _ (hstatic _ h.1)
    · exact h.2 hk
  | writeMem k' =>
    refine ⟨List.mem_cons_of_mem _ h.1, fun hk => ?_⟩
    rcases List.mem_cons.mp hk with rfl | hk
    · exact lt_irrefl _ (hmem _ h.1)
    · exact h.2 hk
  | writeCombined k' => exact ⟨List.mem_cons_of_mem _ h.1, List.mem_cons_of_mem _ h.2⟩

end IntervalJob

/-- Every job the walk sends is of the kind its key asks for. -/
theorem scheduleJobs_fits {fuel : Nat} {memKeys staticKeys : List ℤ}
    (hmem : memKeys.Pairwise (· < ·)) (hstatic : staticKeys.Pairwise (· < ·)) :
    ∀ job ∈ (scheduleJobs fuel memKeys staticKeys).1, job.Fits memKeys staticKeys := by
  fun_induction scheduleJobs fuel memKeys staticKeys with
  | case1 _ staticKeys =>
    intro job hjob
    obtain ⟨k, hk, rfl⟩ := List.mem_map.mp hjob
    exact ⟨hk, List.not_mem_nil⟩
  | case2 _ memKeys _ =>
    intro job hjob
    obtain ⟨k, hk, rfl⟩ := List.mem_map.mp hjob
    exact ⟨hk, List.not_mem_nil⟩
  | case3 => simp
  | case4 _ memKey memKeys staticKey staticKeys hlt jobs _ hrec ih =>
    rw [hrec] at ih
    -- the static head is below the whole memtable list, so it is in the static list only
    have hbelow : ∀ x ∈ memKey :: memKeys, staticKey < x := fun x hx =>
      lt_of_lt_of_le hlt ((List.mem_cons.mp hx).elim (fun h => h.ge)
        (fun h => (List.rel_of_pairwise_cons hmem h).le))
    intro job hjob
    rcases List.mem_cons.mp (by simpa using hjob) with rfl | hjob
    · exact ⟨List.mem_cons_self, fun h => lt_irrefl _ (hbelow _ h)⟩
    · exact (ih hmem hstatic.of_cons job hjob).cons_static hbelow
  | case5 _ memKey memKeys staticKey staticKeys _ hlt jobs _ hrec ih =>
    rw [hrec] at ih
    have hbelow : ∀ x ∈ staticKey :: staticKeys, memKey < x := fun x hx =>
      lt_of_lt_of_le hlt ((List.mem_cons.mp hx).elim (fun h => h.ge)
        (fun h => (List.rel_of_pairwise_cons hstatic h).le))
    intro job hjob
    rcases List.mem_cons.mp (by simpa using hjob) with rfl | hjob
    · exact ⟨List.mem_cons_self, fun h => lt_irrefl _ (hbelow _ h)⟩
    · exact (ih hmem.of_cons hstatic job hjob).cons_mem hbelow
  | case6 _ memKey memKeys staticKey staticKeys hge hle jobs _ hrec ih =>
    rw [hrec] at ih
    -- equal heads: the key is in both lists, and every later key lies above it
    have heq : staticKey = memKey := by omega
    subst heq
    intro job hjob
    rcases List.mem_cons.mp (by simpa using hjob) with rfl | hjob
    · exact ⟨List.mem_cons_self, List.mem_cons_self⟩
    · exact (ih hmem.of_cons hstatic.of_cons job hjob).cons_both
        (fun x hx => List.rel_of_pairwise_cons hmem hx)
        (fun x hx => List.rel_of_pairwise_cons hstatic hx)

/-- With fuel for both lists, every key of either list gets a job. -/
theorem scheduleJobs_covers {fuel : Nat} {memKeys staticKeys : List ℤ}
    (hfuel : memKeys.length + staticKeys.length ≤ fuel) :
    ∀ k ∈ memKeys ++ staticKeys, ∃ job ∈ (scheduleJobs fuel memKeys staticKeys).1, job.key = k := by
  fun_induction scheduleJobs fuel memKeys staticKeys with
  | case1 _ staticKeys =>
    intro k hk
    exact ⟨.reuse k, List.mem_map_of_mem (by simpa using hk), rfl⟩
  | case2 _ memKeys _ =>
    intro k hk
    exact ⟨.writeMem k, List.mem_map_of_mem (by simpa using hk), rfl⟩
  | case3 memKeys staticKeys hmem hstatic =>
    -- no fuel left while both lists still have keys
    cases memKeys with
    | nil => exact absurd rfl hmem
    | cons _ _ => simp at hfuel
  | case4 _ memKey memKeys staticKey staticKeys hlt jobs _ hrec ih =>
    rw [hrec] at ih
    intro k hk
    by_cases hks : k = staticKey
    · exact ⟨.reuse staticKey, List.mem_cons_self, hks.symm⟩
    · obtain ⟨job, hjob, hkey⟩ := ih (by simp at hfuel ⊢; omega) k (by simp at hk ⊢; tauto)
      exact ⟨job, List.mem_cons_of_mem _ hjob, hkey⟩
  | case5 _ memKey memKeys staticKey staticKeys _ hlt jobs _ hrec ih =>
    rw [hrec] at ih
    intro k hk
    by_cases hkm : k = memKey
    · exact ⟨.writeMem memKey, List.mem_cons_self, hkm.symm⟩
    · obtain ⟨job, hjob, hkey⟩ := ih (by simp at hfuel ⊢; omega) k (by simp at hk ⊢; tauto)
      exact ⟨job, List.mem_cons_of_mem _ hjob, hkey⟩
  | case6 _ memKey memKeys staticKey staticKeys hge hle jobs _ hrec ih =>
    rw [hrec] at ih
    have heq : staticKey = memKey := by omega
    subst heq
    intro k hk
    by_cases hks : k = staticKey
    · exact ⟨.writeCombined staticKey, List.mem_cons_self, hks.symm⟩
    · obtain ⟨job, hjob, hkey⟩ := ih (by simp at hfuel ⊢; omega) k (by simp at hk ⊢; tauto)
      exact ⟨job, List.mem_cons_of_mem _ hjob, hkey⟩

/-- The interval a job gives for its key: the static interval it reuses, or what its writer
returned on some directory. -/
def IntervalJob.Result (s : Schema) (db : DB) : IntervalJob → Interval → Prop
  | .reuse k, iv => find? k db.staticTable.intervals = some iv
  | .writeMem k, iv => ∃ mem fs fs', find? k db.memTable.intervals = some mem ∧
      s.writeMemInterval mem fs = (.ok iv, fs')
  | .writeCombined k, iv => ∃ mem static fs fs', find? k db.memTable.intervals = some mem ∧
      find? k db.staticTable.intervals = some static ∧
      s.writeCombinedInterval mem static fs = (.ok iv, fs')

theorem lookupInterval_eq_ok {α : Type} {m : List (ℤ × α)} {key : ℤ} {a : α} :
    lookupInterval m key = .ok a ↔ find? key m = some a := by
  unfold lookupInterval
  split <;> simp_all

theorem lift_lookupInterval_eq_ok {α : Type} {m : List (ℤ × α)} {key : ℤ} {a : α} {fs fs' : FS}
    (h : (GoState.lift (lookupInterval m key) : GoState FS α) fs = (.ok a, fs')) :
    find? key m = some a ∧ fs' = fs := by
  rw [GoState.lift_eq_ok_iff] at h
  exact ⟨lookupInterval_eq_ok.mp h.1, h.2.symm⟩

section Jobs

variable {s : Schema} {db : DB}

/-- A job's response carries its key, and a returned interval is the job's result. -/
theorem runJob_ok {job : IntervalJob} {fs fs' : FS} {key : ℤ} {r : Go Interval}
    (h : runJob s db job fs = (.ok (key, r), fs')) :
    key = job.key ∧ ∀ iv, r = .ok iv → job.Result s db iv := by
  cases job with
  | reuse k =>
    obtain ⟨iv, fs₁, hlook, hpure⟩ := GoState.bind_eq_ok.mp h
    obtain ⟨hfind, -⟩ := lift_lookupInterval_eq_ok hlook
    obtain ⟨hpair, -⟩ := GoState.pure_eq_ok_iff.mp hpure
    obtain ⟨rfl, rfl⟩ := Prod.mk.inj hpair
    exact ⟨rfl, fun iv' hiv => by cases hiv; exact hfind⟩
  | writeMem k =>
    obtain ⟨mem, fs₁, hlook, hwrite⟩ := GoState.bind_eq_ok.mp h
    obtain ⟨hfind, rfl⟩ := lift_lookupInterval_eq_ok hlook
    obtain ⟨w, fs₂, hattempt, hpure⟩ := GoState.bind_eq_ok.mp hwrite
    obtain ⟨hpair, -⟩ := GoState.pure_eq_ok_iff.mp hpure
    obtain ⟨rfl, rfl⟩ := Prod.mk.inj hpair
    refine ⟨rfl, fun iv hiv => ?_⟩
    rw [Go.mapError_eq_ok] at hiv
    subst hiv
    exact ⟨mem, _, fs₂, hfind, GoState.attempt_eq_ok_ok hattempt⟩
  | writeCombined k =>
    obtain ⟨static, fs₁, hlook, hmemLook⟩ := GoState.bind_eq_ok.mp h
    obtain ⟨hstatic, rfl⟩ := lift_lookupInterval_eq_ok hlook
    obtain ⟨mem, fs₂, hlook', hwrite⟩ := GoState.bind_eq_ok.mp hmemLook
    obtain ⟨hmem, rfl⟩ := lift_lookupInterval_eq_ok hlook'
    obtain ⟨w, fs₃, hattempt, hpure⟩ := GoState.bind_eq_ok.mp hwrite
    obtain ⟨hpair, -⟩ := GoState.pure_eq_ok_iff.mp hpure
    obtain ⟨rfl, rfl⟩ := Prod.mk.inj hpair
    refine ⟨rfl, fun iv hiv => ?_⟩
    rw [Go.mapError_eq_ok] at hiv
    subst hiv
    exact ⟨mem, static, _, fs₃, hmem, hstatic, GoState.attempt_eq_ok_ok hattempt⟩

/-- The writers answer each job in turn, with its key; each interval returned is its job's
result. -/
theorem runJobs_ok {jobs : List IntervalJob} {fs fs' : FS} {rs : List (ℤ × Go Interval)}
    (h : runJobs s db jobs fs = (.ok rs, fs')) :
    rs.map (·.1) = jobs.map IntervalJob.key ∧
      ∀ r ∈ rs, ∀ iv, r.2 = .ok iv → ∃ job ∈ jobs, job.key = r.1 ∧ job.Result s db iv := by
  induction jobs generalizing fs rs with
  | nil =>
    obtain ⟨rfl, -⟩ := GoState.pure_eq_ok_iff.mp h
    simp
  | cons job jobs ih =>
    obtain ⟨r, fs₁, hjob, h⟩ := GoState.bind_eq_ok.mp h
    obtain ⟨rs', fs₂, hjobs, hpure⟩ := GoState.bind_eq_ok.mp h
    obtain ⟨rfl, rfl⟩ := GoState.pure_eq_ok_iff.mp hpure
    obtain ⟨hkey, hresult⟩ := @runJob_ok s db job fs fs₁ r.1 r.2 hjob
    obtain ⟨hkeys, hresults⟩ := ih hjobs
    refine ⟨by simp [hkey, hkeys], fun r' hr' iv hiv => ?_⟩
    rcases List.mem_cons.mp hr' with rfl | hr'
    · exact ⟨job, List.mem_cons_self, hkey.symm, hresult iv hiv⟩
    · obtain ⟨job', hjob', hkey', hres'⟩ := hresults r' hr' iv hiv
      exact ⟨job', List.mem_cons_of_mem _ hjob', hkey', hres'⟩

end Jobs

/-! ## Collecting the responses -/

section Collect

variable {rs : List (ℤ × Go Interval)} {acc m : List (ℤ × Interval)}

theorem collectResponses_sorted (hacc : Sorted acc) (h : collectResponses rs acc = .ok m) :
    Sorted m := by
  induction rs generalizing acc with
  | nil => cases h; exact hacc
  | cons r rs ih =>
    obtain ⟨key, r⟩ := r
    cases r with
    | ok iv => exact ih (sorted_insert key iv hacc) h
    | error e => cases h
    | panic p => cases h

/-- A collected interval came from a response, or was there before. -/
theorem find?_collectResponses (h : collectResponses rs acc = .ok m) {k : ℤ} {iv : Interval}
    (hk : find? k m = some iv) : (k, .ok iv) ∈ rs ∨ find? k acc = some iv := by
  induction rs generalizing acc with
  | nil => cases h; exact .inr hk
  | cons r rs ih =>
    obtain ⟨key, r⟩ := r
    cases r with
    | ok iv' =>
      rcases ih h with hmem | hacc
      · exact .inl (List.mem_cons_of_mem _ hmem)
      · rw [find?_insert] at hacc
        split at hacc
        · rename_i hkey
          cases hacc
          exact .inl (hkey ▸ List.mem_cons_self)
        · exact .inr hacc
    | error e => cases h
    | panic p => cases h

/-- Every key a response names, or that was there before, is collected. -/
theorem find?_collectResponses_ne_none (h : collectResponses rs acc = .ok m) {k : ℤ}
    (hk : (∃ r ∈ rs, r.1 = k) ∨ find? k acc ≠ none) : find? k m ≠ none := by
  induction rs generalizing acc with
  | nil =>
    cases h
    simpa using hk
  | cons r rs ih =>
    obtain ⟨key, r⟩ := r
    cases r with
    | ok iv' =>
      refine ih h ?_
      rcases hk with ⟨r', hr', hkey⟩ | hacc
      · rcases List.mem_cons.mp hr' with rfl | hr'
        · right
          simp [← hkey]
        · exact .inl ⟨r', hr', hkey⟩
      · right
        rw [find?_insert]
        split <;> simp_all
    | error e => cases h
    | panic p => cases h

end Collect

/-- What a successful `combineSortedMemStaticIntervals` gives: an interval map, sorted, with
exactly the keys of the two lists, each holding its job's result. -/
structure NewIntervals (s : Schema) (db : DB) (memKeys staticKeys : List ℤ)
    (intervals : List (ℤ × Interval)) : Prop where
  sorted : Sorted intervals
  result : ∀ k iv, find? k intervals = some iv →
    ∃ job : IntervalJob, job.key = k ∧ job.Fits memKeys staticKeys ∧ job.Result s db iv
  covers : ∀ k ∈ memKeys ++ staticKeys, find? k intervals ≠ none

theorem combineSortedMemStaticIntervals_ok {s : Schema} {db : DB} {memKeys staticKeys : List ℤ}
    (hmem : memKeys.Pairwise (· < ·)) (hstatic : staticKeys.Pairwise (· < ·)) {fs fs' : FS}
    {intervals : List (ℤ × Interval)} {cleanup : List Interval}
    (h : combineSortedMemStaticIntervals s db memKeys staticKeys fs =
      (.ok (intervals, cleanup), fs')) :
    NewIntervals s db memKeys staticKeys intervals := by
  unfold combineSortedMemStaticIntervals at h
  have hfits := @scheduleJobs_fits (memKeys.length + staticKeys.length) memKeys staticKeys hmem hstatic
  have hcovers := @scheduleJobs_covers
    (memKeys.length + staticKeys.length) memKeys staticKeys le_rfl
  cases hsched : scheduleJobs (memKeys.length + staticKeys.length) memKeys staticKeys with
  | mk jobs cleanupKeys =>
  rw [hsched] at h hfits hcovers
  obtain ⟨rs, fs₁, hrun, h⟩ := GoState.bind_eq_ok.mp h
  obtain ⟨ivs, fs₂, hcollect, h⟩ := GoState.bind_eq_ok.mp h
  obtain ⟨cleanup', fs₃, -, hpure⟩ := GoState.bind_eq_ok.mp h
  obtain ⟨hpair, -⟩ := GoState.pure_eq_ok_iff.mp hpure
  obtain ⟨rfl, -⟩ := Prod.mk.inj hpair
  have hcollect : collectResponses rs [] = .ok ivs := (GoState.lift_eq_ok_iff.mp hcollect).1
  obtain ⟨hkeys, hresults⟩ := runJobs_ok hrun
  refine ⟨collectResponses_sorted sorted_nil hcollect, fun k iv hk => ?_, fun k hk => ?_⟩
  · rcases find?_collectResponses hcollect hk with hmem | hnil
    · obtain ⟨job, hjob, hkey, hres⟩ := hresults _ hmem iv rfl
      exact ⟨job, hkey, hfits job hjob, hres⟩
    · cases hnil
  · obtain ⟨job, hjob, hkey⟩ := hcovers k hk
    have hk' : k ∈ rs.map (·.1) := hkeys ▸ List.mem_map.mpr ⟨job, hjob, hkey⟩
    obtain ⟨r, hr, hrk⟩ := List.mem_map.mp hk'
    exact find?_collectResponses_ne_none hcollect (.inl ⟨r, hr, hrk⟩)

/-- The dictionary `combineDimensionTables` gives a string column with static dictionary
`static` and memtable dictionary `mem`: the static one when the memtable added no string,
otherwise a new generation holding the static strings followed by the new ones. -/
def combinedTable (static mem : DimensionTable) : DimensionTable :=
  if mem.values = [] then static
  else newDimensionTable (static.generation + 1) (static.values ++ mem.values)

/-- The dictionary `combineDimensionTables` gives the string column `i`, when it succeeds. -/
def combinedAt (db : DB) (i : Nat) : Option DimensionTable :=
  match db.memTable.dimensionTables.getD i none, db.staticTable.dimensionTables.getD i none with
  | some mem, some static => some (combinedTable static mem)
  | _, _ => none

/-- The dictionaries `combineDimensionTables` gives from column `i` on, when it succeeds. -/
def combinedTables (db : DB) : Nat → List DimensionColumn → List (Option DimensionTable)
  | _, [] => []
  | i, col :: cols => (if col.string then combinedAt db i else none) :: combinedTables db (i + 1) cols

/-- The old dictionary `combineDimensionTables` lists for cleanup at the string column `i`, with
its index: the static one, when the memtable added strings to it. -/
def replacedAt (db : DB) (i : Nat) : List (DimensionTable × Nat) :=
  match db.memTable.dimensionTables.getD i none, db.staticTable.dimensionTables.getD i none with
  | some mem, some static => if mem.values = [] then [] else [(static, i)]
  | _, _ => []

/-- The old dictionaries `combineDimensionTables` lists from column `i` on, when it succeeds. -/
def replacedTables (db : DB) : Nat → List DimensionColumn → List (DimensionTable × Nat)
  | _, [] => []
  | i, col :: cols => (if col.string then replacedAt db i else []) ++ replacedTables db (i + 1) cols

section Dictionaries

variable {gzipBody : List String → List UInt8} {s : Schema} {db : DB}

/-- The loop's result after the current column: its table `t` and old dictionaries `o`, then the
later columns'. -/
theorem ok_of_bind_cons {i : Nat} {cols : List DimensionColumn} {t : Option DimensionTable}
    {o : List (DimensionTable × Nat)}
    {k : List (Option DimensionTable) × List (DimensionTable × Nat) →
      GoState FS (List (Option DimensionTable) × List (DimensionTable × Nat))}
    {fs fs' : FS} {tables : List (Option DimensionTable)} {old : List (DimensionTable × Nat)}
    (h : (combineDimensionTablesFrom gzipBody s db i cols >>= k) fs = (.ok (tables, old), fs'))
    (hk : ∀ x fs₀ r fs₁, k x fs₀ = (.ok r, fs₁) → r = (t :: x.1, o ++ x.2) ∧ fs₁ = fs₀) :
    ∃ tables' old', combineDimensionTablesFrom gzipBody s db i cols fs =
      (.ok (tables', old'), fs') ∧ tables = t :: tables' ∧ old = o ++ old' := by
  obtain ⟨x, fs₁, hcall, hrest⟩ := GoState.bind_eq_ok.mp h
  obtain ⟨hr, rfl⟩ := hk _ _ _ _ hrest
  obtain ⟨htables, hold⟩ := Prod.mk.inj hr
  exact ⟨x.1, x.2, hcall, htables, hold⟩

/-- On success, the loop gives each string column its combined dictionary, and no dictionary to
the other columns, and lists the static dictionaries it replaced. -/
theorem combineDimensionTablesFrom_ok {i : Nat} {cols : List DimensionColumn} {fs fs' : FS}
    {tables : List (Option DimensionTable)} {old : List (DimensionTable × Nat)}
    (h : combineDimensionTablesFrom gzipBody s db i cols fs = (.ok (tables, old), fs')) :
    tables = combinedTables db i cols ∧ old = replacedTables db i cols := by
  induction cols generalizing i fs tables old with
  | nil =>
    obtain ⟨hpair, -⟩ := GoState.pure_eq_ok_iff.mp h
    exact ⟨(Prod.mk.inj hpair).1.symm, (Prod.mk.inj hpair).2.symm⟩
  | cons col cols ih =>
    unfold combineDimensionTablesFrom at h
    by_cases hstring : col.string
    · rw [if_pos hstring] at h
      cases hm : db.memTable.dimensionTables.getD i none with
      | none =>
        simp only [hm] at h
        exact absurd h (GoState.lift_ne_ok (by simp))
      | some mem =>
        cases hs : db.staticTable.dimensionTables.getD i none with
        | none =>
          simp only [hm, hs] at h
          exact absurd h (GoState.lift_ne_ok (by simp))
        | some static =>
          simp only [hm, hs] at h
          have hnext : ∀ {fs₀ : FS} {o : List (DimensionTable × Nat)}
              {k : List (Option DimensionTable) × List (DimensionTable × Nat) →
                GoState FS (List (Option DimensionTable) × List (DimensionTable × Nat))},
              o = replacedAt db i →
              (combineDimensionTablesFrom gzipBody s db (i + 1) cols >>= k) fs₀ =
                (.ok (tables, old), fs') →
              (∀ x fs₀ r fs₁, k x fs₀ = (.ok r, fs₁) →
                r = (some (combinedTable static mem) :: x.1, o ++ x.2) ∧ fs₁ = fs₀) →
              tables = combinedTables db i (col :: cols) ∧
                old = replacedTables db i (col :: cols) := fun ho hcall hk => by
            obtain ⟨tables', old', hcall', rfl, rfl⟩ := ok_of_bind_cons hcall hk
            obtain ⟨htables, hold⟩ := ih hcall'
            simp only [combinedTables, replacedTables, combinedAt, if_pos hstring, hm, hs, htables,
              hold, ho, and_self]
          by_cases hempty : mem.values = []
          · rw [if_pos hempty] at h
            have hold : ([] : List (DimensionTable × Nat)) = replacedAt db i := by
              simp only [replacedAt, hm, hs, if_pos hempty]
            refine hnext hold h fun x fs₀ r fs₁ hk => ?_
            obtain ⟨rfl, rfl⟩ := GoState.pure_eq_ok_iff.mp hk
            exact ⟨by rw [combinedTable, if_pos hempty, List.nil_append], rfl⟩
          · rw [if_neg hempty] at h
            have hnew : combinedTable static mem =
                newDimensionTable (static.generation + 1) (static.values ++ mem.values) := by
              rw [combinedTable, if_neg hempty]
            have hold : [(static, i)] = replacedAt db i := by
              simp only [replacedAt, hm, hs, if_neg hempty]
            have hk : ∀ (x : List (Option DimensionTable) × List (DimensionTable × Nat)) fs₀ r fs₁,
                (pure (some (newDimensionTable (static.generation + 1)
                  (static.values ++ mem.values)) :: x.1, (static, i) :: x.2) :
                  GoState FS (List (Option DimensionTable) × List (DimensionTable × Nat)))
                  fs₀ = (.ok r, fs₁) →
                r = (some (combinedTable static mem) :: x.1, [(static, i)] ++ x.2) ∧ fs₁ = fs₀ := by
              intro x fs₀ r fs₁ hk
              obtain ⟨rfl, rfl⟩ := GoState.pure_eq_ok_iff.mp hk
              exact ⟨by rw [hnew, List.singleton_append], rfl⟩
            split at h
            · -- the new dictionary is stored before the later columns are combined
              obtain ⟨u, fs₁, -, hrest⟩ := GoState.bind_eq_ok.mp h
              exact hnext hold hrest hk
            · exact hnext hold h hk
    · rw [if_neg hstring] at h
      have hk : ∀ (x : List (Option DimensionTable) × List (DimensionTable × Nat)) fs₀ r fs₁,
          (pure (none :: x.1, x.2) :
            GoState FS (List (Option DimensionTable) × List (DimensionTable × Nat))) fs₀ =
            (.ok r, fs₁) →
          r = (none :: x.1, [] ++ x.2) ∧ fs₁ = fs₀ := by
        intro x fs₀ r fs₁ hk
        obtain ⟨rfl, rfl⟩ := GoState.pure_eq_ok_iff.mp hk
        exact ⟨rfl, rfl⟩
      obtain ⟨tables', old', hcall, rfl, rfl⟩ := ok_of_bind_cons h hk
      obtain ⟨htables, hold⟩ := ih hcall
      simp only [combinedTables, replacedTables, if_neg hstring, htables, hold, List.nil_append,
        and_self]

/-- A combined dictionary holds the static strings, then the memtable's. -/
theorem combinedTable_values (static mem : DimensionTable) :
    (combinedTable static mem).values = static.values ++ mem.values := by
  unfold combinedTable
  split
  · rename_i hempty
    rw [hempty, List.append_nil]
  · rfl

/-- The dictionary the loop gives the `i`-th column it walks. -/
theorem getElem?_combinedTables (db : DB) :
    ∀ (j : Nat) (cols : List DimensionColumn) (i : Nat),
      (combinedTables db j cols)[i]? =
        cols[i]?.map fun col => if col.string then combinedAt db (j + i) else none
  | _, [], _ => rfl
  | _, _ :: _, 0 => rfl
  | j, _ :: cols, i + 1 => by
    rw [combinedTables, List.getElem?_cons_succ, getElem?_combinedTables db (j + 1) cols i,
      List.getElem?_cons_succ, show j + 1 + i = j + (i + 1) by omega]

end Dictionaries

/-! ## `flush` -/

/-- The starts `flush` keeps of a table's intervals: with `FixedRetention`, those in retention
at the clock reading `now`. -/
def keptKeys (s : Schema) (now : ℤ) (keys : List ℤ) : List ℤ :=
  if s.runConfig.fixedRetention then (partitionIntervalStartsByRetention s now keys).2 else keys

/-- The starts `flush` drops of the static table's intervals and cleans up: with
`FixedRetention`, those out of retention at the clock reading `now`. -/
def droppedKeys (s : Schema) (now : ℤ) (keys : List ℤ) : List ℤ :=
  if s.runConfig.fixedRetention then (partitionIntervalStartsByRetention s now keys).1 else []

theorem flush_keys (s : Schema) (now₁ now₂ : ℤ) (staticKeys memKeys : List ℤ) :
    (if s.runConfig.fixedRetention = true then
        ((partitionIntervalStartsByRetention s now₁ staticKeys).1,
          (partitionIntervalStartsByRetention s now₁ staticKeys).2,
          (partitionIntervalStartsByRetention s now₂ memKeys).2)
      else ([], staticKeys, memKeys)) =
      (droppedKeys s now₁ staticKeys, keptKeys s now₁ staticKeys, keptKeys s now₂ memKeys) := by
  unfold droppedKeys keptKeys
  split <;> rfl

/-- The static table a flush builds: the intervals and the dictionaries its two combining steps
returned, from the kept keys. -/
def FlushBuilds (codecs : Codecs) (s : Schema) (now₁ now₂ : ℤ) (db : DB) (fs : FS)
    (st : StaticTable) : Prop :=
  ∃ cleanup old fs₁ fs₂,
    combineSortedMemStaticIntervals s db (keptKeys s now₂ (db.memTable.intervals.map (·.1)))
        (keptKeys s now₁ (db.staticTable.intervals.map (·.1))) fs =
      (.ok (st.intervals, cleanup), fs₁) ∧
    combineDimensionTables codecs.gzipBody s db fs₁ = (.ok (st.dimensionTables, old), fs₂)

/-- A flush that builds a static table gives each string column the combined dictionary of its
static and memtable dictionaries. -/
theorem FlushBuilds.getD_dimensionTables {codecs : Codecs} {s : Schema} {now₁ now₂ : ℤ} {db : DB}
    {fs : FS} {st : StaticTable} (hb : FlushBuilds codecs s now₁ now₂ db fs st) {i : Nat}
    {col : DimensionColumn} (hcol : s.dimensionColumns[i]? = some col) (hstring : col.string = true)
    {static mem : DimensionTable} (hstatic : db.staticTable.dimensionTables.getD i none = some static)
    (hmem : db.memTable.dimensionTables.getD i none = some mem) :
    st.dimensionTables.getD i none = some (combinedTable static mem) := by
  obtain ⟨_, _, _, _, -, htables⟩ := hb
  rw [(combineDimensionTablesFrom_ok htables).1, List.getD_eq_getElem?_getD, getElem?_combinedTables,
    hcol, Option.map_some, if_pos hstring, Nat.zero_add, Option.getD_some, combinedAt, hmem,
    hstatic]

section Phases

variable {codecs : Codecs} {s : Schema} {now₁ now₂ : ℤ} {db : DB} {fs fs' : FS}

/-- A flush that gets to the hand-off built its table by the two combining steps, from the kept
keys, and cleans up the static intervals retention drops, then those it combined. -/
theorem prepareFlush_plan {pl : FlushPlan}
    (h : db.prepareFlush codecs s now₁ now₂ fs = (.ok pl, fs')) :
    ∃ cleanup fs₁,
      combineSortedMemStaticIntervals s db (keptKeys s now₂ (db.memTable.intervals.map (·.1)))
          (keptKeys s now₁ (db.staticTable.intervals.map (·.1))) fs =
        (.ok (pl.staticTable.intervals, cleanup), fs₁) ∧
      combineDimensionTables codecs.gzipBody s db fs₁ =
        (.ok (pl.staticTable.dimensionTables, pl.oldDimTables), fs') ∧
      pl.cleanup = (droppedKeys s now₁ (db.staticTable.intervals.map (·.1))).filterMap
          (fun key => find? key db.staticTable.intervals) ++ cleanup := by
  unfold DB.prepareFlush at h
  simp only [flush_keys] at h
  split at h
  · cases h
  · cases h
  · rename_i intervals cleanup fs₁ hcombine
    split at h
    · cases h
    · cases h
    · rename_i tables old fs₂ htables
      simp only [Prod.mk.injEq, Go.ok.injEq] at h
      obtain ⟨rfl, rfl⟩ := h
      exact ⟨cleanup, fs₁, hcombine, htables, rfl⟩

/-- A flush that gets to the hand-off built its static table from the kept keys. -/
theorem prepareFlush_ok {pl : FlushPlan} (h : db.prepareFlush codecs s now₁ now₂ fs = (.ok pl, fs')) :
    FlushBuilds codecs s now₁ now₂ db fs pl.staticTable := by
  obtain ⟨cleanup, fs₁, hcombine, htables, -⟩ := prepareFlush_plan h
  exact ⟨cleanup, pl.oldDimTables, fs₁, fs', hcombine, htables⟩

/-- A flush that fails before the hand-off says which of its two combining steps failed. -/
theorem prepareFlush_error {e : String}
    (h : db.prepareFlush codecs s now₁ now₂ fs = (.error e, fs')) :
    ∃ e', e = "error combining mem+static intervals: " ++ e' ∨
      e = "cannot combine dimension tables: " ++ e' := by
  unfold DB.prepareFlush at h
  simp only [flush_keys] at h
  split at h
  · simp only [Prod.mk.injEq, Go.error.injEq] at h
    exact ⟨_, .inl h.1.symm⟩
  · cases h
  · split at h
    · simp only [Prod.mk.injEq, Go.error.injEq] at h
      exact ⟨_, .inr h.1.symm⟩
    · cases h
    · cases h

/-- After the wait, `flush` succeeds with a new memtable, or fails on disk writing the metadata and
leaves the database as it was. -/
theorem finishFlush_cases {pl : FlushPlan} {r : Go Unit} {db' : DB}
    (h : db.finishFlush codecs s pl fs = (r, db', fs')) :
    (r = .ok () ∧ db' = { db with memTable := newMemTable s }) ∨
      (s.diskBacked = true ∧ db' = db ∧
        ((∃ e, r = .error ("error writing metadata: " ++ e)) ∨ ∃ p, r = .panic p)) := by
  unfold DB.finishFlush at h
  split at h
  · rename_i hdisk
    split at h
    · simp only [Prod.mk.injEq] at h
      obtain ⟨rfl, rfl, -⟩ := h
      exact .inr ⟨hdisk, rfl, .inl ⟨_, rfl⟩⟩
    · simp only [Prod.mk.injEq] at h
      obtain ⟨rfl, rfl, -⟩ := h
      exact .inr ⟨hdisk, rfl, .inr ⟨_, rfl⟩⟩
    · simp only [Prod.mk.injEq] at h
      obtain ⟨rfl, rfl, -⟩ := h
      exact .inl ⟨rfl, rfl⟩
  · simp only [Prod.mk.injEq] at h
    obtain ⟨rfl, rfl, -⟩ := h
    exact .inl ⟨rfl, rfl⟩

/-- Everything a flush can do. It fails before the swap, leaving the database as it was; or it
swaps in the static table it built and succeeds, with a new memtable; or, on disk, it swaps the
table in and fails writing the metadata, keeping the memtable. -/
theorem flush_cases {db' : DB} {r : Go Unit} (h : DB.flush codecs s now₁ now₂ db fs = (r, db', fs')) :
    (db' = db ∧ ((∃ e, r = .error ("error combining mem+static intervals: " ++ e) ∨
        r = .error ("cannot combine dimension tables: " ++ e)) ∨ ∃ p, r = .panic p)) ∨
      (∃ st, FlushBuilds codecs s now₁ now₂ db fs st ∧ r = .ok () ∧
        db' = { db with staticTable := st, memTable := newMemTable s }) ∨
      (∃ st, FlushBuilds codecs s now₁ now₂ db fs st ∧ s.diskBacked = true ∧
        db' = { db with staticTable := st } ∧
        ((∃ e, r = .error ("error writing metadata: " ++ e)) ∨ ∃ p, r = .panic p)) := by
  unfold DB.flush at h
  split at h
  · rename_i e fs₁ hprep
    simp only [Prod.mk.injEq] at h
    obtain ⟨rfl, rfl, -⟩ := h
    obtain ⟨e', he | he⟩ := prepareFlush_error hprep
    · exact .inl ⟨rfl, .inl ⟨e', .inl (by rw [he])⟩⟩
    · exact .inl ⟨rfl, .inl ⟨e', .inr (by rw [he])⟩⟩
  · simp only [Prod.mk.injEq] at h
    obtain ⟨rfl, rfl, -⟩ := h
    exact .inl ⟨rfl, .inr ⟨_, rfl⟩⟩
  · rename_i pl fs₁ hprep
    -- the new static table is swapped in
    have hb := prepareFlush_ok hprep
    rcases finishFlush_cases h with ⟨rfl, rfl⟩ | ⟨hdisk, rfl, hr⟩
    · exact .inr (.inl ⟨_, hb, rfl, rfl⟩)
    · exact .inr (.inr ⟨_, hb, hdisk, rfl, hr⟩)

end Phases

/-- A flush that succeeds swapped in the static table it built and started a new memtable. -/
theorem flush_ok {codecs : Codecs} {s : Schema} {now₁ now₂ : ℤ} {db db' : DB} {fs fs' : FS}
    (h : DB.flush codecs s now₁ now₂ db fs = (.ok (), db', fs')) :
    ∃ st, FlushBuilds codecs s now₁ now₂ db fs st ∧
      db' = { db with staticTable := st, memTable := newMemTable s } := by
  rcases flush_cases h with ⟨-, ⟨e, he | he⟩ | ⟨p, hp⟩⟩ | ⟨st, hb, -, rfl⟩ |
      ⟨st, -, -, -, ⟨e, he⟩ | ⟨p, hp⟩⟩
  · cases he
  · cases he
  · cases hp
  · exact ⟨st, hb, rfl⟩
  · cases he
  · cases hp

end Gumshoe
