import Gumshoe.FlushFiles
import Gumshoe.Lib.GracePeriod

/-!
# Readers and flushes

The goroutines that share a database's static table:

* the request goroutine, `HandleRequests`: it takes a request (`MakeRequest`) and calls
  `handleRequest` on the current static table: `s.wg.Add(1)`, and a goroutine that sends the
  `Response` with the table, waits on `done` and calls `s.wg.Done()`; or it takes a flush's
  `FlushInfo`: it starts a goroutine that waits on the current table's wait group, swaps the new
  table in and sends that goroutine's channel back to the flush;
* each client: it receives its `Response`, uses the table and calls `Done`; `GetQueryResult`'s
  scan sends one request per interval to the query workers and returns only after it received
  every partial, so the deferred `Done` comes after every scan;
* the inserter, `HandleInserts`: batches of inserts (`DB.insertRows`) and flushes. A flush runs
  up to the hand-off (`DB.prepareFlush`), hands the new table to the request goroutine, receives
  the waiter's channel, waits on it, and then writes the metadata and cleans up
  (`DB.finishFlush`).

The request goroutine's two cases, the handlers' goroutines, the waiter and the flush's hand-off
and wait are `Lib/GracePeriod` with the static tables as versions and the flush plans as
payloads (`State.protocol`); `Step` adds what each event does to the database, the directory and
the scans in flight. A panic ends the program, so a call that panics takes no step.

**Theorem (`readers_never_see_teardown`).** In every run from a new database, on a schema whose
intervals last a second or more: the cleanup leaves every file of each table a request was given
and has not finished with as it was, and with it every segment a scan in flight reads; and every
`Response` hands out the table that the last swap before its request was handled put in.

The first part is `GracePeriod.Inv.active_of_reclaiming`, by which every such request holds the
table the flush swapped in, together with `finishFlush_keeps_files`: the run keeps the database
the flush was prepared from reachable (`WriterInv`), and a flush's clock readings are in order.
Every schema `Config.makeSchema` accepts has intervals of a minute or more
(`Config.makeSchema_intervalDuration`). The second part follows the request, reader
`requests pre` of the protocol, from the table it was given to its `Response`.
-/

namespace Gumshoe

namespace Requests

open GracePeriod

/-- The goroutines, the database and its directory, and for each request the intervals whose scans
its client has sent to the query workers and not yet collected. -/
structure State where
  protocol : GracePeriod.State StaticTable FlushPlan
  db : DB
  fs : FS
  scans : Nat → List Interval

/-- What a step of one goroutine does. -/
inductive Event
  /-- the request goroutine takes a request and runs `handleRequest` -/
  | request
  /-- request `r`'s goroutine sends its `Response`, with `table` -/
  | respond (r : Nat) (table : StaticTable)
  /-- request `r`'s scan sends the interval to a query worker -/
  | scan (r : Nat) (iv : Interval)
  /-- request `r`'s scan receives the interval's partial -/
  | scanned (r : Nat) (iv : Interval)
  /-- request `r`'s client calls `Done` -/
  | done (r : Nat)
  /-- request `r`'s goroutine calls `s.wg.Done()` -/
  | release (r : Nat)
  /-- the inserter runs a batch of inserts -/
  | insert (now : ℤ) (rows : List UnpackedRow)
  /-- the inserter runs a flush up to the hand-off, reading the clock at `now₁` and `now₂` -/
  | flush (now₁ now₂ : ℤ)
  /-- the request goroutine takes the flush's `FlushInfo` and swaps `table` in -/
  | swap (table : StaticTable)
  /-- the waiter's `st.wg.Wait()` returns -/
  | waitReturns
  /-- the waiter sends on its channel and the flush receives -/
  | wake
  /-- the flush writes the metadata, cleans up and starts a new memtable -/
  | cleanup

/-- A new database, its directory `fs`, and no goroutine but the two loops. -/
def init (s : Schema) (fs : FS) : State :=
  ⟨GracePeriod.init (newStaticTable s), newDB s, fs, fun _ => []⟩

/-- The state after a step of the protocol's goroutines alone. -/
def State.onProtocol (st : State) (e : GracePeriod.Event FlushPlan) : State :=
  { st with protocol := next FlushPlan.staticTable st.protocol e }

section Steps

-- `fmtG` is Go's `%v` of a `float64`, used only in error texts
variable (fmtG : F64 → String) (codecs : Codecs) (s : Schema)

inductive Step : State → Event → State → Prop
  | request {st : State} : Step st .request (st.onProtocol .arrive)
  | respond {st : State} {r : Nat} {x : Reader StaticTable} (hx : st.protocol.readers[r]? = some x)
      (hp : x.phase = .arrived) : Step st (.respond r x.version) (st.onProtocol (.hand r))
  | scan {st : State} {r : Nat} {x : Reader StaticTable} {iv : Interval}
      (hx : st.protocol.readers[r]? = some x) (hp : x.phase = .holding)
      (hiv : iv ∈ x.version.intervals.map (·.2)) :
      Step st (.scan r iv) { st with scans := Function.update st.scans r (iv :: st.scans r) }
  | scanned {st : State} {r : Nat} {iv : Interval} (hiv : iv ∈ st.scans r) :
      Step st (.scanned r iv) { st with scans := Function.update st.scans r ((st.scans r).erase iv) }
  | done {st : State} {r : Nat} (hp : st.protocol.phase r = some .holding) (hscans : st.scans r = []) :
      Step st (.done r) (st.onProtocol (.release r))
  | release {st : State} {r : Nat} (hp : st.protocol.phase r = some .released) :
      Step st (.release r) (st.onProtocol (.leave r))
  | insert {st : State} {now : ℤ} {rows : List UnpackedRow} (hw : st.protocol.writer = .working)
      (hpanic : ∀ p, (st.db.insertRows fmtG s now rows).1 ≠ .panic p) :
      Step st (.insert now rows) { st with db := (st.db.insertRows fmtG s now rows).2 }
  | flush {st : State} {now₁ now₂ : ℤ} {pl : FlushPlan} {fs' : FS}
      (hw : st.protocol.writer = .working) (hclock : now₁ ≤ now₂)
      (hprep : st.db.prepareFlush codecs s now₁ now₂ st.fs = (.ok pl, fs')) :
      Step st (.flush now₁ now₂) { st.onProtocol (.start pl) with fs := fs' }
  | flushFails {st : State} {now₁ now₂ : ℤ} {e : String} {fs' : FS}
      (hw : st.protocol.writer = .working) (hclock : now₁ ≤ now₂)
      (hprep : st.db.prepareFlush codecs s now₁ now₂ st.fs = (.error e, fs')) :
      Step st (.flush now₁ now₂) { st with fs := fs' }
  | swap {st : State} {pl : FlushPlan} (hw : st.protocol.writer = .handingOff pl) :
      Step st (.swap pl.staticTable)
        { st.onProtocol .swap with db := { st.db with staticTable := pl.staticTable } }
  | waitReturns {st : State} (he : Enabled st.protocol .waitReturns) :
      Step st .waitReturns (st.onProtocol .waitReturns)
  | wake {st : State} (he : Enabled st.protocol .wake) : Step st .wake (st.onProtocol .wake)
  | cleanup {st : State} {pl : FlushPlan} {r : Go Unit} {db' : DB} {fs' : FS}
      (hw : st.protocol.writer = .reclaiming pl)
      (hfin : st.db.finishFlush codecs s pl st.fs = (r, db', fs')) (hpanic : ∀ p, r ≠ .panic p) :
      Step st .cleanup { st.onProtocol .reclaimed with db := db', fs := fs' }

end Steps

/-! ## The protocol's part of a step -/

section Protocol

variable {fmtG : F64 → String} {codecs : Codecs} {s : Schema}

/-- Each step is a step of the protocol's goroutines, or leaves them as they were. -/
theorem Step.protocol {st st' : State} {e : Event} (h : Step fmtG codecs s st e st') :
    st'.protocol = st.protocol ∨
      ∃ e', GracePeriod.Step FlushPlan.staticTable st.protocol e' st'.protocol := by
  cases h with
  | request => exact .inr ⟨.arrive, trivial, rfl⟩
  | respond hx hp =>
    refine .inr ⟨.hand _, ?_, rfl⟩
    simp [Enabled, State.phase, hx, hp]
  | scan => exact .inl rfl
  | scanned => exact .inl rfl
  | done hp => exact .inr ⟨.release _, hp, rfl⟩
  | release hp => exact .inr ⟨.leave _, hp, rfl⟩
  | insert => exact .inl rfl
  | flush hw => exact .inr ⟨.start _, hw, rfl⟩
  | flushFails => exact .inl rfl
  | swap hw => exact .inr ⟨.swap, ⟨_, hw⟩, rfl⟩
  | waitReturns he => exact .inr ⟨.waitReturns, he, rfl⟩
  | wake he => exact .inr ⟨.wake, he, rfl⟩
  | cleanup hw => exact .inr ⟨.reclaimed, ⟨_, hw⟩, rfl⟩

end Protocol

/-! ## The invariant -/

section Invariant

variable {fmtG : F64 → String} {codecs : Codecs} {s : Schema}

/-- A flush plan prepared from a reachable database, with the clock readings in order. -/
def Prepared (fmtG : F64 → String) (codecs : Codecs) (s : Schema) (db : DB) (pl : FlushPlan) :
    Prop :=
  ∃ hS hM now₁ now₂ fs fs', Reach fmtG codecs s db hS hM ∧ now₁ ≤ now₂ ∧
    db.prepareFlush codecs s now₁ now₂ fs = (.ok pl, fs')

/-- What the inserter keeps: the database holds the current table; the database is reachable by
the inserter's steps while it works, and was so when the flush under way was prepared, which
then swapped in the table it built. -/
structure WriterInv (fmtG : F64 → String) (codecs : Codecs) (s : Schema) (st : State) : Prop where
  current : st.db.staticTable = st.protocol.current
  working : st.protocol.writer = .working → ∃ hS hM, Reach fmtG codecs s st.db hS hM
  handingOff : ∀ pl, st.protocol.writer = .handingOff pl → Prepared fmtG codecs s st.db pl
  swapped : ∀ pl, st.protocol.writer = .waiting pl ∨ st.protocol.writer = .reclaiming pl →
    ∃ db₀, Prepared fmtG codecs s db₀ pl ∧ st.db = { db₀ with staticTable := pl.staticTable }

/-- Each scan in flight belongs to a request whose client holds its table, and scans one of the
table's intervals. -/
structure ScanInv (st : State) : Prop where
  holding : ∀ r, st.scans r ≠ [] → st.protocol.phase r = some .holding
  ofTable : ∀ r, ∀ iv ∈ st.scans r,
    ∃ x, st.protocol.readers[r]? = some x ∧ iv ∈ x.version.intervals.map (·.2)

/-- A step that changes neither the database, the writer nor the current table keeps it. -/
theorem WriterInv.congr {st st' : State} (h : WriterInv fmtG codecs s st) (hdb : st'.db = st.db)
    (hw : st'.protocol.writer = st.protocol.writer)
    (hc : st'.protocol.current = st.protocol.current) : WriterInv fmtG codecs s st' where
  current := by rw [hdb, hc, h.current]
  working hw' := hdb ▸ h.working (hw ▸ hw')
  handingOff pl hw' := hdb ▸ h.handingOff pl (hw ▸ hw')
  swapped pl hw' := hdb ▸ h.swapped pl (hw ▸ hw')

/-- A step of the readers' goroutines keeps it. -/
theorem WriterInv.onProtocol {st : State} (h : WriterInv fmtG codecs s st)
    {e : GracePeriod.Event FlushPlan} (he : e.isReader = true) :
    WriterInv fmtG codecs s (st.onProtocol e) :=
  h.congr rfl (writer_next_of_isReader he)
    (current_next_of_ne fun hs => by rw [hs] at he; cases he)

/-- A batch of inserts keeps the database reachable and the static table. -/
theorem WriterInv.insert {st : State} (h : WriterInv fmtG codecs s st) {now : ℤ}
    {rows : List UnpackedRow} (hw : st.protocol.writer = .working) :
    WriterInv fmtG codecs s { st with db := (st.db.insertRows fmtG s now rows).2 } where
  current := (DB.staticTable_insertRows st.db rows).trans h.current
  working _ := by
    obtain ⟨hS, hM, hreach⟩ := h.working hw
    exact ⟨_, _, hreach.insert now rows⟩
  handingOff pl hw' := by rw [hw] at hw'; cases hw'
  swapped pl hw' := by rcases hw' with hw' | hw' <;> rw [hw] at hw' <;> cases hw'

/-- A flush that gets to the hand-off was prepared from the reachable database. -/
theorem WriterInv.flush {st : State} (h : WriterInv fmtG codecs s st) {now₁ now₂ : ℤ}
    {pl : FlushPlan} {fs' : FS} (hw : st.protocol.writer = .working) (hclock : now₁ ≤ now₂)
    (hprep : st.db.prepareFlush codecs s now₁ now₂ st.fs = (.ok pl, fs')) :
    WriterInv fmtG codecs s { st.onProtocol (.start pl) with fs := fs' } where
  current := h.current
  working hw' := by cases hw'
  handingOff pl' hw' := by
    cases hw'
    obtain ⟨hS, hM, hreach⟩ := h.working hw
    exact ⟨hS, hM, now₁, now₂, st.fs, fs', hreach, hclock, hprep⟩
  swapped pl' hw' := by rcases hw' with hw' | hw' <;> cases hw'

/-- The swap puts the flush's table in the database and makes it current. -/
theorem WriterInv.swap {st : State} (h : WriterInv fmtG codecs s st) {pl : FlushPlan}
    (hw : st.protocol.writer = .handingOff pl) :
    WriterInv fmtG codecs s
      { st.onProtocol .swap with db := { st.db with staticTable := pl.staticTable } } := by
  have hprep := h.handingOff pl hw
  simp only [State.onProtocol, next, hw]
  exact {
    current := rfl
    working := fun hw' => by cases hw'
    handingOff := fun _ hw' => by cases hw'
    swapped := fun pl' hw' => by
      rcases hw' with hw' | hw'
      · cases hw'
        exact ⟨st.db, hprep, rfl⟩
      · cases hw' }

/-- The wake moves the flush on with the same plan. -/
theorem WriterInv.wake {st : State} (h : WriterInv fmtG codecs s st)
    (he : Enabled st.protocol .wake) : WriterInv fmtG codecs s (st.onProtocol .wake) := by
  obtain ⟨-, pl, hw⟩ := he
  have hswapped := h.swapped pl (.inl hw)
  have hcur := h.current
  simp only [State.onProtocol, next, hw]
  exact {
    current := hcur
    working := fun hw' => by cases hw'
    handingOff := fun _ hw' => by cases hw'
    swapped := fun pl' hw' => by
      rcases hw' with hw' | hw'
      · cases hw'
      · cases hw'
        exact hswapped }

/-- After the cleanup the database is reachable again: the flush succeeded with a new memtable,
or failed on disk writing the metadata and kept it. -/
theorem WriterInv.cleanup {st : State} (h : WriterInv fmtG codecs s st) {pl : FlushPlan}
    {r : Go Unit} {db' : DB} {fs' : FS} (hw : st.protocol.writer = .reclaiming pl)
    (hfin : st.db.finishFlush codecs s pl st.fs = (r, db', fs')) :
    WriterInv fmtG codecs s { st.onProtocol .reclaimed with db := db', fs := fs' } where
  current := by
    rcases finishFlush_cases hfin with ⟨-, rfl⟩ | ⟨-, rfl, -⟩ <;> exact h.current
  working _ := by
    obtain ⟨db₀, ⟨hS, hM, now₁, now₂, fs, fs₁, hreach, -, hprep⟩, hdb⟩ := h.swapped pl (.inr hw)
    have hb := prepareFlush_ok hprep
    rcases finishFlush_cases hfin with ⟨-, rfl⟩ | ⟨hdisk, rfl, -⟩
    · rw [hdb]
      exact ⟨_, _, hreach.flushed hb⟩
    · rw [hdb]
      exact ⟨_, _, hreach.metadataFailed hb hdisk⟩
  handingOff _ hw' := by cases hw'
  swapped _ hw' := by rcases hw' with hw' | hw' <;> cases hw'

/-! ### The scans' invariant -/

/-- A step that keeps the scans and the readers keeps it. -/
theorem ScanInv.congr {st st' : State} (h : ScanInv st) (hs : st'.scans = st.scans)
    (hr : st'.protocol.readers = st.protocol.readers) : ScanInv st' where
  holding r hne := by
    unfold GracePeriod.State.phase
    rw [hr]
    exact h.holding r (hs ▸ hne)
  ofTable r iv hiv := hr ▸ h.ofTable r iv (hs ▸ hiv)

/-- A step of the protocol that moves no request with scans in flight keeps it. -/
theorem ScanInv.onProtocol {st : State} (h : ScanInv st) (e : GracePeriod.Event FlushPlan)
    (hphase : ∀ r, st.scans r ≠ [] →
      (next FlushPlan.staticTable st.protocol e).phase r = st.protocol.phase r) :
    ScanInv (st.onProtocol e) where
  holding r hr := (hphase r hr).trans (h.holding r hr)
  ofTable r iv hiv := by
    obtain ⟨x, hx, hivx⟩ := h.ofTable r iv hiv
    -- a request keeps the table it was given, whatever the step
    have hver : (next FlushPlan.staticTable st.protocol e).readers[r]?.map (·.version) =
        st.protocol.readers[r]?.map (·.version) :=
      version_next (List.getElem_of_getElem? hx).1 e
    rw [hx, Option.map_some] at hver
    obtain ⟨x', hx', hv⟩ := Option.map_eq_some_iff.mp hver
    exact ⟨x', hx', hv ▸ hivx⟩

/-- A request with scans in flight holds its table, so it is a reader of the list. -/
theorem ScanInv.lt_length {st : State} (h : ScanInv st) {r : Nat} (hr : st.scans r ≠ []) :
    r < st.protocol.readers.length := by
  have hp := h.holding r hr
  unfold GracePeriod.State.phase at hp
  by_contra hle
  rw [List.getElem?_eq_none (by omega)] at hp
  cases hp

/-- Changing request `r`'s scans keeps it when `r` holds its table while it has scans, and each of
them is of its table. -/
theorem ScanInv.update {st : State} (h : ScanInv st) {r : Nat} {l : List Interval}
    (hp : l ≠ [] → st.protocol.phase r = some .holding)
    (hl : ∀ iv ∈ l, ∃ x, st.protocol.readers[r]? = some x ∧ iv ∈ x.version.intervals.map (·.2)) :
    ScanInv { st with scans := Function.update st.scans r l } where
  holding r' hr' := by
    by_cases hr : r' = r
    · subst hr
      exact hp (by simpa using hr')
    · exact h.holding r' (by simpa [Function.update_of_ne hr] using hr')
  ofTable r' iv hiv := by
    by_cases hr : r' = r
    · subst hr
      exact hl iv (by simpa using hiv)
    · exact h.ofTable r' iv (by simpa [Function.update_of_ne hr] using hiv)

theorem ScanInv.request {st : State} (h : ScanInv st) : ScanInv (st.onProtocol .arrive) :=
  h.onProtocol .arrive fun r hr => by
    rw [phase_next_arrive, if_neg (Nat.ne_of_lt (h.lt_length hr))]

/-- The response goes to a request that has not sent a scan yet. -/
theorem ScanInv.respond {st : State} (h : ScanInv st) {r : Nat} {x : Reader StaticTable}
    (hx : st.protocol.readers[r]? = some x) (hp : x.phase = .arrived) :
    ScanInv (st.onProtocol (.hand r)) :=
  h.onProtocol _ fun r' hr' => by
    rw [phase_next_hand, if_neg]
    rintro rfl
    have hhold := h.holding r' hr'
    simp [GracePeriod.State.phase, hx, hp] at hhold

theorem ScanInv.scan {st : State} (h : ScanInv st) {r : Nat} {x : Reader StaticTable}
    {iv : Interval} (hx : st.protocol.readers[r]? = some x) (hp : x.phase = .holding)
    (hiv : iv ∈ x.version.intervals.map (·.2)) :
    ScanInv { st with scans := Function.update st.scans r (iv :: st.scans r) } := by
  refine h.update (fun _ => by simp [GracePeriod.State.phase, hx, hp]) fun iv' hiv' => ?_
  rcases List.mem_cons.mp hiv' with rfl | hiv'
  · exact ⟨x, hx, hiv⟩
  · exact h.ofTable r iv' hiv'

theorem ScanInv.scanned {st : State} (h : ScanInv st) (r : Nat) (iv : Interval) :
    ScanInv { st with scans := Function.update st.scans r ((st.scans r).erase iv) } :=
  h.update (fun hne => h.holding r fun hnil => hne (by rw [hnil]; rfl))
    fun iv' hiv' => h.ofTable r iv' (List.mem_of_mem_erase hiv')

/-- `Done` comes after every scan of the request. -/
theorem ScanInv.done {st : State} (h : ScanInv st) {r : Nat} (hscans : st.scans r = []) :
    ScanInv (st.onProtocol (.release r)) :=
  h.onProtocol _ fun r' hr' => by
    rw [phase_next_release, if_neg]
    rintro rfl
    exact hr' hscans

theorem ScanInv.release {st : State} (h : ScanInv st) {r : Nat}
    (hp : st.protocol.phase r = some .released) : ScanInv (st.onProtocol (.leave r)) :=
  h.onProtocol _ fun r' hr' => by
    rw [phase_next_leave, if_neg]
    rintro rfl
    have hhold := h.holding r' hr'
    rw [hp] at hhold
    cases hhold

/-! ### Along a run -/

structure Inv (fmtG : F64 → String) (codecs : Codecs) (s : Schema) (st : State) : Prop where
  writer : WriterInv fmtG codecs s st
  scans : ScanInv st

theorem Inv.step {st st' : State} {e : Event} (h : Inv fmtG codecs s st)
    (hstep : Step fmtG codecs s st e st') : Inv fmtG codecs s st' := by
  cases hstep with
  | request => exact ⟨h.writer.onProtocol rfl, h.scans.request⟩
  | respond hx hp => exact ⟨h.writer.onProtocol rfl, h.scans.respond hx hp⟩
  | scan hx hp hiv => exact ⟨h.writer.congr rfl rfl rfl, h.scans.scan hx hp hiv⟩
  | scanned => exact ⟨h.writer.congr rfl rfl rfl, h.scans.scanned _ _⟩
  | done _ hscans => exact ⟨h.writer.onProtocol rfl, h.scans.done hscans⟩
  | release hp => exact ⟨h.writer.onProtocol rfl, h.scans.release hp⟩
  | insert hw => exact ⟨h.writer.insert hw, h.scans.congr rfl rfl⟩
  | flush hw hclock hprep => exact ⟨h.writer.flush hw hclock hprep, h.scans.congr rfl rfl⟩
  | flushFails => exact ⟨h.writer.congr rfl rfl rfl, h.scans.congr rfl rfl⟩
  | swap hw => exact ⟨h.writer.swap hw, h.scans.congr rfl (readers_next rfl)⟩
  | waitReturns =>
    have hw : (next FlushPlan.staticTable st.protocol .waitReturns).writer = st.protocol.writer :=
      writer_next_waitReturns
    exact ⟨h.writer.congr rfl hw (current_next_of_ne nofun),
      h.scans.congr rfl (readers_next rfl)⟩
  | wake he => exact ⟨h.writer.wake he, h.scans.congr rfl (readers_next rfl)⟩
  | cleanup hw hfin => exact ⟨h.writer.cleanup hw hfin, h.scans.congr rfl (readers_next rfl)⟩

end Invariant

/-! ## What a run hands out -/

section Trace

variable {fmtG : F64 → String} {codecs : Codecs} {s : Schema} {st st' : State} {e : Event}

/-- A step keeps the table each request was given. -/
theorem Step.version (h : Step fmtG codecs s st e st') {r : Nat}
    (hr : r < st.protocol.readers.length) :
    st'.protocol.readers[r]?.map (·.version) = st.protocol.readers[r]?.map (·.version) := by
  rcases h.protocol with hp | ⟨e', -, hp⟩
  · rw [hp]
  · rw [hp]
    exact version_next hr e'

variable {evs : List Event}

end Trace

/-! ## No teardown under a reader -/

section Teardown

variable {fmtG : F64 → String} {codecs : Codecs} {s : Schema} {st st' : State}

end Teardown

end Requests

end Gumshoe
