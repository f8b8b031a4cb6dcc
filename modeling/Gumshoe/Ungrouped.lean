import Gumshoe.Handlers

/-!
# `HandleQuery` without groupings

`router.go`, lines 192-212. On a query without groupings the goroutine of each shard decodes
the shard's header and its one row, then, under the mutex `mu`, stores the row as `result[0]`
if it comes first or merges it into `result[0]` with `mergeRows`. After `mu.Unlock()` it decodes
the next value of the stream into the same variable `row`, and returns nil only at `io.EOF`.

The goroutine whose row became `result[0]` still holds that map in `row`. When its shard streams
a second object, that `Decode(&row)` writes the object's members into `result[0]` outside the
mutex, while a goroutine that has not merged yet may be merging into the same map under `mu`: a
data race on a Go map. The states of the goroutines record whose `row` is `result[0]` (`owner`);
a state is `Racy` when that goroutine's unlocked write and another goroutine's merge are both
enabled, and a racy state may end the program (`crash`), as Go's runtime ends a program that
writes a map concurrently. A panic in `mergeRows` ends the program too.

**Theorem (`handleQuery_ungrouped_sums`).** For a query whose aggregates are over integer
columns, and every interleaving: when each shard sends exactly one row of numbers, the response
is one row whose summed fields are the `int64` sums over the shards. When a shard does not, the
program dies or responds with the error of a shard that failed; it does not die when no shard
streams a second row and every row merged is one of numbers.

**Theorem (`handleQuery_ungrouped_may_crash`).** When one shard streams a row and then a second
object with a member, and another shard sends a row, some interleaving ends the program.

Both are read off two projections onto `Lib/WaitGroup`. The phases and the recorded error form
a wait group over nothing shared, in which a crash stutters (`toWaitGroup`). When no shard
streams a second row, `result` (none once the program has died) is the shared value of a wait
group whose critical sections merge with `mergeRows` (`toResultGroup`).
-/

namespace Gumshoe

/-- A shard's streamed answer to a query as the decoder reads it: the header (a
`map[string]int`), the rows after it, and the error that ends the stream, none at `io.EOF`. -/
structure RowStream where
  header : Except String Unit
  rows : List RowMap
  close : Option String

/-- What the goroutine of a shard does with its answer: the row its first `Decode(&row)` reads,
the object its second `Decode(&row)` reads into the same map, and the error it returns. -/
structure UngroupedOutcome where
  item : Option RowMap
  second : Option RowMap
  err : Option RouterError

/-- The goroutine of `shard` for a query without groupings. -/
def ungroupedOutcome (shard : String) (reply : ShardReply RowStream) : UngroupedOutcome :=
  match checkReply shard reply with
  | .error err => ⟨none, none, some err⟩
  | .ok st =>
    match st.header with
    | .error msg => ⟨none, none, some ⟨msg, none⟩⟩
    | .ok () =>
      match st.rows with
      -- the first `Decode(&row)` fails, with `EOF` when the stream has ended
      | [] => ⟨none, none, some ⟨st.close.getD "EOF", none⟩⟩
      -- after the merge, the second `Decode(&row)` must give `io.EOF`
      | [row] => ⟨some row, none, st.close.map (⟨·, none⟩)⟩
      | row :: next :: _ =>
        ⟨some row, some next, some ⟨"got multiple results for a non-group-by query", none⟩⟩

/-- `Decode(&row)` of an object into the map `row` holds: each member is stored over what the map
had. -/
def RowMap.decodeInto (m obj : RowMap) : RowMap :=
  obj.entries.foldl (fun m e => m.set e.1 e.2) m

/-- The critical section: the first row becomes `result`, and a later one is merged into
`result[0]`; none when `mergeRows` panics. -/
def mergeResult (r : Router) (q : Query) : List RowMap → RowMap → Option (List RowMap)
  | [], row => some [row]
  | cur :: rest, row =>
    match r.mergeRows cur row q with
    | .ok merged => some (merged :: rest)
    | _ => none

/-- A goroutine as the wait group over nothing shared sees it. -/
def UngroupedOutcome.toUnit (o : UngroupedOutcome) : WaitGroup.Outcome Unit RouterError :=
  ⟨o.item.map fun _ => (), o.err⟩

/-- A goroutine as the wait group of `result` sees it. -/
def UngroupedOutcome.toRows (o : UngroupedOutcome) : WaitGroup.Outcome RowMap RouterError :=
  ⟨o.item, o.err⟩

namespace Ungrouped

/-- The shard goroutines: `result`, the goroutine whose `row` is the map stored as `result[0]`,
each goroutine's phase, the error the group recorded, and whether the program has died. -/
structure State (n : Nat) where
  result : List RowMap
  owner : Option (Fin n)
  phase : Fin n → WaitGroup.Phase
  err : Option RouterError
  crashed : Bool

inductive Event (n : Nat)
  /-- the goroutine's critical section, or its failure before `mu.Lock()` -/
  | critical (w : Fin n)
  /-- the second `Decode(&row)` and the return -/
  | exit (w : Fin n)
  /-- the program dies on a concurrent map write -/
  | crash

variable {n : Nat}

/-- The second `Decode(&row)` of the goroutine whose `row` is `result[0]`: the object it reads is
written into `result[0]`. -/
def writeHead : Option RowMap → List RowMap → List RowMap
  | some obj, cur :: rest => cur.decodeInto obj :: rest
  | _, result => result

section Steps

variable (r : Router) (q : Query) (outcome : Fin n → UngroupedOutcome)

/-- Every goroutine started, nothing stored or recorded. -/
def init : State n := ⟨[], none, fun _ => .started, none, false⟩

/-- The goroutine whose `row` is `result[0]` is about to decode an object with a member into it,
outside the mutex, while another goroutine is about to merge its row into `result[0]`: two
unsynchronized writes of one map. -/
def Racy (s : State n) : Prop :=
  ∃ a b, s.owner = some a ∧ s.phase a = .unlocked ∧
    (∃ obj, (outcome a).second = some obj ∧ obj.entries ≠ []) ∧
    s.phase b = .started ∧ (outcome b).item ≠ none

def Enabled (s : State n) : Event n → Prop
  | .critical w => s.crashed = false ∧ s.phase w = .started
  | .exit w => s.crashed = false ∧ s.phase w = .unlocked
  | .crash => s.crashed = false ∧ Racy outcome s

/-- The effect of a step. A goroutine without a row touches nothing shared; the first row stored
makes its goroutine the owner of `result[0]`; the owner's second decode writes into it. -/
def next (s : State n) : Event n → State n
  | .critical w =>
    let s' := { s with phase := Function.update s.phase w .unlocked }
    match (outcome w).item with
    | none => s'
    | some row =>
      match mergeResult r q s.result row with
      | some result =>
        { s' with result, owner := if s.result.isEmpty then some w else s.owner }
      -- a panic in a goroutine ends the program
      | none => { s' with crashed := true }
  | .exit w =>
    { s with result := if s.owner = some w then writeHead (outcome w).second s.result else s.result,
             err := s.err.or (outcome w).err,
             phase := Function.update s.phase w .returned }
  | .crash => { s with crashed := true }

def Step (s t : State n) : Prop := ∃ e, Enabled outcome s e ∧ t = next r q outcome s e

/-- Every goroutine has returned. -/
def Done (s : State n) : Prop := ∀ w, s.phase w = .returned

end Steps

/-! ## What a step does -/

section NextLemmas

variable {r : Router} {q : Query} {outcome : Fin n → UngroupedOutcome} {s : State n} {w : Fin n}

/-- A goroutine without a row leaves what is shared as it was. -/
theorem next_critical_of_item_none (h : (outcome w).item = none) :
    next r q outcome s (.critical w) = { s with phase := Function.update s.phase w .unlocked } := by
  simp only [next, h]

/-- A goroutine whose row merges stores the result, and owns it when it came first. -/
theorem next_critical_of_merge {row : RowMap} {result : List RowMap}
    (h : (outcome w).item = some row) (hm : mergeResult r q s.result row = some result) :
    next r q outcome s (.critical w) =
      { s with result, owner := if s.result.isEmpty then some w else s.owner,
               phase := Function.update s.phase w .unlocked } := by
  simp only [next, h, hm]

/-- A goroutine whose merge panics ends the program. -/
theorem next_critical_of_panic {row : RowMap} (h : (outcome w).item = some row)
    (hm : mergeResult r q s.result row = none) :
    next r q outcome s (.critical w) =
      { s with phase := Function.update s.phase w .unlocked, crashed := true } := by
  simp only [next, h, hm]

/-- The critical step passes the goroutine on and records nothing, whatever it does to `result`. -/
theorem phase_err_next_critical :
    (next r q outcome s (.critical w)).phase = Function.update s.phase w .unlocked ∧
      (next r q outcome s (.critical w)).err = s.err := by
  cases h : (outcome w).item with
  | none => rw [next_critical_of_item_none h]; exact ⟨rfl, rfl⟩
  | some row =>
    cases hm : mergeResult r q s.result row with
    | none => rw [next_critical_of_panic h hm]; exact ⟨rfl, rfl⟩
    | some result => rw [next_critical_of_merge h hm]; exact ⟨rfl, rfl⟩

@[simp] theorem phase_next_exit :
    (next r q outcome s (.exit w)).phase = Function.update s.phase w .returned := rfl

@[simp] theorem err_next_exit : (next r q outcome s (.exit w)).err = s.err.or (outcome w).err := rfl

@[simp] theorem crashed_next_exit : (next r q outcome s (.exit w)).crashed = s.crashed := rfl

/-- Without a second object, the return writes nothing. -/
theorem result_next_exit (h : (outcome w).second = none) :
    (next r q outcome s (.exit w)).result = s.result := by
  simp only [next, h, writeHead, ite_self]

end NextLemmas

/-! ## The wait group of the phases -/

section Phases

variable {r : Router} {q : Query} {outcome : Fin n → UngroupedOutcome}

/-- The phases and the recorded error: a wait group over nothing shared. -/
def toWaitGroup (s : State n) : WaitGroup.State Unit RouterError n := ⟨(), s.phase, s.err⟩

/-- Each step of the goroutines is a step of the wait group, or a crash, which changes neither
the phases nor the error. -/
theorem step_toWaitGroup {s t : State n} (h : Step r q outcome s t) :
    Relation.ReflTransGen (WaitGroup.Step (fun _ _ => ()) fun w => (outcome w).toUnit)
      (toWaitGroup s) (toWaitGroup t) := by
  obtain ⟨e, he, rfl⟩ := h
  cases e with
  | critical w =>
    refine .single ⟨.critical w, he.2, ?_⟩
    obtain ⟨hphase, herr⟩ := @phase_err_next_critical n r q outcome s w
    simp only [toWaitGroup, WaitGroup.next, hphase, herr]
  | exit w =>
    refine .single ⟨.exit w, he.2, ?_⟩
    simp only [toWaitGroup, WaitGroup.next, phase_next_exit, err_next_exit, UngroupedOutcome.toUnit]
  | crash => exact .refl

theorem reachable_toWaitGroup {s : State n}
    (h : Relation.ReflTransGen (Step r q outcome) init s) :
    Relation.ReflTransGen (WaitGroup.Step (fun _ _ => ()) fun w => (outcome w).toUnit)
      (WaitGroup.init ()) (toWaitGroup s) :=
  h.lift' toWaitGroup fun _ _ hst => step_toWaitGroup hst

end Phases

/-! ## The wait group of `result` -/

section Result

variable {r : Router} {q : Query} {outcome : Fin n → UngroupedOutcome}

/-- `result`, none once the program has died, with the phases and the recorded error. -/
def toResultGroup (s : State n) : WaitGroup.State (Option (List RowMap)) RouterError n :=
  ⟨if s.crashed then none else some s.result, s.phase, s.err⟩

/-- The critical sections of the wait group of `result`: a merge, or the end of the program. -/
def bindMerge (r : Router) (q : Query) (o : Option (List RowMap)) (row : RowMap) :
    Option (List RowMap) :=
  o.bind fun result => mergeResult r q result row

/-- No state is racy when no shard streams a second row. -/
theorem not_racy (hsecond : ∀ w, (outcome w).second = none) (s : State n) : ¬Racy outcome s := by
  rintro ⟨a, -, -, -, ⟨obj, hobj, -⟩, -⟩
  rw [hsecond a] at hobj
  cases hobj

/-- When no shard streams a second row, each step is a step of the wait group of `result`. -/
theorem step_toResultGroup (hsecond : ∀ w, (outcome w).second = none) {s t : State n}
    (h : Step r q outcome s t) :
    WaitGroup.Step (bindMerge r q) (fun w => (outcome w).toRows)
      (toResultGroup s) (toResultGroup t) := by
  obtain ⟨e, he, rfl⟩ := h
  cases e with
  | critical w =>
    refine ⟨.critical w, he.2, ?_⟩
    cases hitem : (outcome w).item with
    | none =>
      rw [next_critical_of_item_none hitem]
      simp [toResultGroup, WaitGroup.next, UngroupedOutcome.toRows, hitem]
    | some row =>
      -- the projection's fold step is the merge the goroutine makes, or the crash
      cases hm : mergeResult r q s.result row with
      | none =>
        rw [next_critical_of_panic hitem hm]
        simp [toResultGroup, WaitGroup.next, UngroupedOutcome.toRows, hitem, bindMerge, he.1, hm]
      | some result =>
        rw [next_critical_of_merge hitem hm]
        simp [toResultGroup, WaitGroup.next, UngroupedOutcome.toRows, hitem, bindMerge, he.1, hm]
  | exit w =>
    refine ⟨.exit w, he.2, ?_⟩
    simp [toResultGroup, WaitGroup.next, UngroupedOutcome.toRows, result_next_exit (hsecond w)]
  | crash => exact absurd he.2 (not_racy hsecond s)

/-- Merging rows of numbers one after another never panics: the result is the first row with the
others merged into it. -/
theorem foldl_bindMerge (hq : IntegerSums r q) :
    ∀ (rows : List RowMap) (cur : RowMap), (∀ c ∈ sumFields q, IsSumField cur c) →
      (∀ row ∈ rows, ∀ c ∈ sumFields q, IsNumberField row c) →
      rows.foldl (bindMerge r q) (some [cur]) = some [rows.foldl (mergeInto r q) cur]
  | [], _, _, _ => rfl
  | row :: rows, cur, hcur, hrows => by
    obtain ⟨m, hm, hsums, -⟩ := mergeRows_spec hq hcur (hrows row List.mem_cons_self)
    have hstep : bindMerge r q (some [cur]) row = some [m] := by
      simp only [bindMerge, Option.bind_some, mergeResult, hm]
    have hmerge : mergeInto r q cur row = m := by rw [mergeInto, hm]
    rw [List.foldl_cons, List.foldl_cons, hstep, hmerge]
    exact foldl_bindMerge hq rows m (fun c hc => .inr ⟨_, hsums c hc⟩)
      fun row' h => hrows row' (List.mem_cons_of_mem row h)

/-- Rows merged one after another into the first; none for no rows. -/
def mergedRows (r : Router) (q : Query) : List RowMap → List RowMap
  | [] => []
  | row :: rows => [rows.foldl (mergeInto r q) row]

/-- From the empty result, the fold of rows of numbers is the first row with the others merged
into it. -/
theorem foldl_bindMerge_nil (hq : IntegerSums r q) (rows : List RowMap)
    (hrows : ∀ row ∈ rows, ∀ c ∈ sumFields q, IsNumberField row c) :
    rows.foldl (bindMerge r q) (some []) = some (mergedRows r q rows) := by
  cases rows with
  | nil => rfl
  | cons row rows =>
    rw [List.foldl_cons]
    exact foldl_bindMerge hq rows row
      (fun c hc => (hrows row List.mem_cons_self c hc).isSumField)
      fun row' h => hrows row' (List.mem_cons_of_mem row h)

/-- **No crash without a second row.** When no shard streams a second row and every row a
goroutine merges is one of numbers, the program never dies, and `result` is the first row, in
the order the goroutines passed the mutex, with the later ones merged into it. -/
theorem result_of_reachable (hq : IntegerSums r q) (hsecond : ∀ w, (outcome w).second = none)
    (hnum : ∀ w row, (outcome w).item = some row → ∀ c ∈ sumFields q, IsNumberField row c)
    {s : State n} (h : Relation.ReflTransGen (Step r q outcome) init s) :
    s.crashed = false ∧ ∃ L : List (Fin n), L.Nodup ∧ (∀ w, w ∈ L ↔ s.phase w ≠ .started) ∧
      s.result = mergedRows r q (L.filterMap fun w => (outcome w).item) := by
  have hrun : Relation.ReflTransGen (WaitGroup.Step (bindMerge r q) fun w => (outcome w).toRows)
      (WaitGroup.init (some [])) (toResultGroup s) :=
    h.lift toResultGroup fun _ _ hst => step_toResultGroup hsecond hst
  obtain ⟨L, hnd, hmem, hL⟩ := (WaitGroup.inv_of_reachable hrun).folded
  have hitems : ∀ row ∈ L.filterMap (fun w => (outcome w).toRows.item),
      ∀ c ∈ sumFields q, IsNumberField row c := by
    intro row hrow
    obtain ⟨w, -, hw⟩ := List.mem_filterMap.mp hrow
    exact hnum w row hw
  rw [foldl_bindMerge_nil hq _ hitems] at hL
  -- the projection holds `some result` exactly when the program runs
  unfold toResultGroup at hL
  cases hcrash : s.crashed with
  | true => simp [hcrash] at hL
  | false =>
    simp only [hcrash, Bool.false_eq_true, if_false, Option.some.injEq] at hL
    exact ⟨rfl, L, hnd, hmem, hL⟩

end Result

end Ungrouped

/-! ## The handler -/

/-- The goroutines of `HandleQuery` for a query without groupings, shard `w` answering
`replies w`. -/
def UngroupedStep (r : Router) (q : Query) (replies : Fin r.shards.length → ShardReply RowStream) :
    Ungrouped.State r.shards.length → Ungrouped.State r.shards.length → Prop :=
  Ungrouped.Step r q fun w => ungroupedOutcome (r.shards.get w) (replies w)

/-- `HandleQuery` for a query without groupings, from the start of its goroutines: the responses
over every interleaving, none when the program dies. The response's value is `result`; its
`DurationMS` is left out. -/
def HandleUngroupedQuery (r : Router) (q : Query)
    (replies : Fin r.shards.length → ShardReply RowStream)
    (resp : Option (Response (List RowMap))) : Prop :=
  ∃ s, Relation.ReflTransGen (UngroupedStep r q replies) Ungrouped.init s ∧
    (s.crashed = true ∧ resp = none ∨
      Ungrouped.Done s ∧ resp = some (match s.err with
        | some err => writeError err 500
        | none => .json s.result))

/-- A shard answers with exactly one row, then the end of the stream. -/
def OneRow (reply : ShardReply RowStream) (row : RowMap) : Prop :=
  ∃ text, reply = .response 200 text ⟨.ok (), [row], none⟩

theorem ungroupedOutcome_of_oneRow {shard : String} {reply : ShardReply RowStream} {row : RowMap}
    (h : OneRow reply row) : ungroupedOutcome shard reply = ⟨some row, none, none⟩ := by
  obtain ⟨text, rfl⟩ := h
  rfl

/-- A goroutine returns nil exactly when its shard sends one row and ends the stream. -/
theorem ungroupedOutcome_err_eq_none_iff {shard : String} {reply : ShardReply RowStream} :
    (ungroupedOutcome shard reply).err = none ↔ ∃ row, OneRow reply row := by
  constructor
  · intro h
    cases reply with
    | failed err => simp [ungroupedOutcome, checkReply] at h
    | response status text st =>
      obtain ⟨header, rows, close⟩ := st
      by_cases hs : status = 200
      · subst hs
        cases header with
        | error msg => simp [ungroupedOutcome, checkReply] at h
        | ok u =>
          match rows, close with
          | [], _ => simp [ungroupedOutcome, checkReply] at h
          | [row], none => exact ⟨row, text, rfl⟩
          | [row], some msg => simp [ungroupedOutcome, checkReply] at h
          | _ :: _ :: _, _ => simp [ungroupedOutcome, checkReply] at h
      · simp [ungroupedOutcome, checkReply, hs] at h
  · rintro ⟨row, hrow⟩
    rw [ungroupedOutcome_of_oneRow hrow]

section Handler

variable {r : Router} {q : Query} {replies : Fin r.shards.length → ShardReply RowStream}

/-- A run whose goroutines have all returned, one of them without its one row, responds with
the error of a goroutine that failed. -/
theorem resp_of_done {s : Ungrouped.State r.shards.length} {resp : Option (Response (List RowMap))}
    (h : Relation.ReflTransGen (UngroupedStep r q replies) Ungrouped.init s) (hdone : Ungrouped.Done s)
    (hresp : resp = some (match s.err with
      | some err => writeError err 500
      | none => .json s.result))
    {w : Fin r.shards.length} (hw : ¬∃ row, OneRow (replies w) row) :
    ∃ w' err, (ungroupedOutcome (r.shards.get w') (replies w')).err = some err ∧
      resp = some (writeError err 500) := by
  -- `Wait` gives the error the group recorded, which is `s.err`
  obtain ⟨w', err, hw', herr⟩ : ∃ w' err,
      (ungroupedOutcome (r.shards.get w') (replies w')).err = some err ∧ s.err = some err :=
    WaitGroup.exists_wait_eq_some (Ungrouped.reachable_toWaitGroup h) hdone (w := w)
      fun hnone => hw (ungroupedOutcome_err_eq_none_iff.mp hnone)
  exact ⟨w', err, hw', by rw [hresp, herr]⟩

/-- **`HandleQuery` without groupings.** For a query whose aggregates are over integer columns, a
router with a shard, every answer of the shards and every interleaving of the goroutines: when
each shard sends exactly one row, of numbers, the response is one row whose summed fields are the
`int64` sums of the shards' fields. When some shard does not, the program dies or responds with
the error of a shard that failed; when besides no shard streams a second row and every row a
goroutine merges is one of numbers, it responds with that error. -/
theorem handleQuery_ungrouped_sums {resp : Option (Response (List RowMap))}
    (hq : IntegerSums r q) (hshards : r.shards ≠ []) (h : HandleUngroupedQuery r q replies resp) :
    (∀ rows : Fin r.shards.length → RowMap, (∀ w, OneRow (replies w) (rows w)) →
      (∀ w, ∀ c ∈ sumFields q, IsNumberField (rows w) c) →
      ∃ row, resp = some (.json [row]) ∧ ∀ c ∈ sumFields q, sumValue (row.get? c) =
        Int64.ofInt (((List.finRange r.shards.length).map fun w =>
          (sumValue ((rows w).get? c)).toInt).sum)) ∧
    (∀ w, (¬∃ row, OneRow (replies w) row) →
      resp = none ∨ ∃ w' err, (ungroupedOutcome (r.shards.get w') (replies w')).err = some err ∧
        resp = some (writeError err 500)) ∧
    ((∀ w, (ungroupedOutcome (r.shards.get w) (replies w)).second = none) →
      (∀ w row, (ungroupedOutcome (r.shards.get w) (replies w)).item = some row →
        ∀ c ∈ sumFields q, IsNumberField row c) →
      ∀ w, (¬∃ row, OneRow (replies w) row) →
      ∃ w' err, (ungroupedOutcome (r.shards.get w') (replies w')).err = some err ∧
        resp = some (writeError err 500)) := by
  obtain ⟨s, hrun, hend⟩ := h
  refine ⟨fun rows hone hnum => ?_, fun w hw => ?_, fun hsecond hnum w hw => ?_⟩
  · -- every goroutine merges its row of numbers: no crash, and no error
    have hout : ∀ w, ungroupedOutcome (r.shards.get w) (replies w) = ⟨some (rows w), none, none⟩ :=
      fun w => ungroupedOutcome_of_oneRow (hone w)
    obtain ⟨hlive, L, hnd, hmem, hresult⟩ := Ungrouped.result_of_reachable hq
      (fun w => by rw [hout w]) (fun w row hrow => by
        rw [hout w, Option.some.injEq] at hrow
        exact hrow ▸ hnum w) hrun
    obtain ⟨hdone, hresp⟩ := hend.resolve_left fun hcrash => by simp [hlive] at hcrash
    have herr : s.err = none :=
      (WaitGroup.wait_eq_none_iff (Ungrouped.reachable_toWaitGroup hrun) hdone).mpr fun w => by
        show (ungroupedOutcome (r.shards.get w) (replies w)).err = none
        rw [hout w]
    -- every goroutine passed the mutex, so the order is a permutation of them
    have hperm : L.Perm (List.finRange r.shards.length) :=
      WaitGroup.perm_finRange hnd fun w => (hmem w).mpr (by simp [hdone w])
    have hitems : L.filterMap (fun w => (ungroupedOutcome (r.shards.get w) (replies w)).item) =
        L.map rows := by
      simp only [hout]
      exact congrFun List.filterMap_eq_map L
    -- the router has a shard, so some goroutine came first and stored its row
    obtain ⟨w₀, L', rfl⟩ : ∃ w₀ L', L = w₀ :: L' := by
      cases L with
      | nil =>
        have hlen := hperm.length_eq
        simp only [List.length_nil, List.length_finRange] at hlen
        exact absurd (List.length_eq_zero_iff.mp hlen.symm) hshards
      | cons w₀ L' => exact ⟨w₀, L', rfl⟩
    rw [hitems, List.map_cons] at hresult
    refine ⟨(L'.map rows).foldl (mergeInto r q) (rows w₀), ?_, fun c hc => ?_⟩
    · rw [hresp, herr, hresult]
      rfl
    · have hnum' : ∀ row ∈ rows w₀ :: L'.map rows, ∀ c ∈ sumFields q, IsNumberField row c := by
        intro row hrow
        rcases List.mem_cons.mp hrow with rfl | hrow
        · exact hnum w₀
        · obtain ⟨w', -, rfl⟩ := List.mem_map.mp hrow
          exact hnum w'
      rw [sumValue_foldl_mergeInto hq hnum' hc, ← List.map_cons, List.map_map]
      exact congrArg Int64.ofInt (hperm.map _).sum_eq
  · -- the program died, or `Wait` gives the error of a goroutine that failed
    rcases hend with ⟨-, hresp⟩ | ⟨hdone, hresp⟩
    · exact .inl hresp
    · exact .inr (resp_of_done hrun hdone hresp hw)
  · -- without a second row the program does not die
    obtain ⟨hlive, -⟩ := Ungrouped.result_of_reachable hq hsecond hnum hrun
    obtain ⟨hdone, hresp⟩ := hend.resolve_left fun hcrash => by simp [hlive] at hcrash
    exact resp_of_done hrun hdone hresp hw

/-- A query without groupings over `clicks`. -/
def clicksQuery : Query := ⟨[⟨.sum, "clicks", "clicks"⟩], [], []⟩

theorem integerSums_clicksQuery : IntegerSums usRouter clicksQuery := by
  refine ⟨fun agg hagg => ?_, by simp [sumFields, clicksQuery]⟩
  simp only [clicksQuery, List.mem_singleton] at hagg
  subst hagg
  exact ⟨.uint8, rfl, rfl⟩

/-- Two shards answering one row each. -/
def clicksReplies : Fin 2 → ShardReply RowStream
  | 0 => .response 200 "" ⟨.ok (), [usRow 3 1], none⟩
  | 1 => .response 200 "" ⟨.ok (), [usRow 4 2], none⟩

/-- Shard 0 stores its row, returns, then shard 1 merges its row and returns. -/
def clicksRun : Ungrouped.State usRouter.shards.length :=
  let next := Ungrouped.next usRouter clicksQuery fun w =>
    ungroupedOutcome (usRouter.shards.get w) (clicksReplies w)
  next (next (next (next Ungrouped.init (.critical ⟨0, Nat.zero_lt_two⟩))
    (.exit ⟨0, Nat.zero_lt_two⟩)) (.critical ⟨1, Nat.one_lt_two⟩)) (.exit ⟨1, Nat.one_lt_two⟩)

theorem handleQuery_ungrouped_sums_clicks :
    IntegerSums usRouter clicksQuery ∧ usRouter.shards ≠ [] ∧
    HandleUngroupedQuery usRouter clicksQuery clicksReplies
      (some (.json [mergeInto usRouter clicksQuery (usRow 3 1) (usRow 4 2)])) ∧
    (∀ rows : Fin usRouter.shards.length → RowMap, (∀ w, OneRow (clicksReplies w) (rows w)) →
      (∀ w, ∀ c ∈ sumFields clicksQuery, IsNumberField (rows w) c) →
      ∃ row, (some (.json [mergeInto usRouter clicksQuery (usRow 3 1) (usRow 4 2)]) :
          Option (Response (List RowMap))) = some (.json [row]) ∧
        ∀ c ∈ sumFields clicksQuery, sumValue (row.get? c) =
          Int64.ofInt (((List.finRange usRouter.shards.length).map fun w =>
            (sumValue ((rows w).get? c)).toInt).sum)) ∧
    (∀ w, (¬∃ row, OneRow (clicksReplies w) row) →
      (some (.json [mergeInto usRouter clicksQuery (usRow 3 1) (usRow 4 2)]) :
          Option (Response (List RowMap))) = none ∨
        ∃ w' err, (ungroupedOutcome (usRouter.shards.get w') (clicksReplies w')).err = some err ∧
          (some (.json [mergeInto usRouter clicksQuery (usRow 3 1) (usRow 4 2)]) :
            Option (Response (List RowMap))) = some (writeError err 500)) ∧
    ((∀ w, (ungroupedOutcome (usRouter.shards.get w) (clicksReplies w)).second = none) →
      (∀ w row, (ungroupedOutcome (usRouter.shards.get w) (clicksReplies w)).item = some row →
        ∀ c ∈ sumFields clicksQuery, IsNumberField row c) →
      ∀ w, (¬∃ row, OneRow (clicksReplies w) row) →
      ∃ w' err, (ungroupedOutcome (usRouter.shards.get w') (clicksReplies w')).err = some err ∧
        (some (.json [mergeInto usRouter clicksQuery (usRow 3 1) (usRow 4 2)]) :
          Option (Response (List RowMap))) = some (writeError err 500)) := by
  have hshards : usRouter.shards ≠ [] := by simp [usRouter]
  have h : HandleUngroupedQuery usRouter clicksQuery clicksReplies
      (some (.json [mergeInto usRouter clicksQuery (usRow 3 1) (usRow 4 2)])) := by
    refine ⟨clicksRun, ?_, .inr ⟨fun w => ?_, rfl⟩⟩
    · -- each shard's goroutine stores or merges its row, then returns
      refine .head ⟨.critical ⟨0, Nat.zero_lt_two⟩, ⟨rfl, rfl⟩, rfl⟩
        (.head ⟨.exit ⟨0, Nat.zero_lt_two⟩, ⟨rfl, rfl⟩, rfl⟩
        (.head ⟨.critical ⟨1, Nat.one_lt_two⟩, ⟨rfl, rfl⟩, rfl⟩
        (.single ⟨.exit ⟨1, Nat.one_lt_two⟩, ⟨rfl, rfl⟩, rfl⟩)))
    · obtain ⟨_ | _ | n, hn⟩ := w
      · rfl
      · rfl
      · simp only [usRouter, List.length_cons, List.length_nil] at hn
        omega
  exact ⟨integerSums_clicksQuery, hshards, h,
    handleQuery_ungrouped_sums integerSums_clicksQuery hshards h⟩

/-- **A second row can end the program.** When shard `a` answers with a row and then a second
object with a member, and the goroutine of another shard `b` decodes a row, some interleaving
ends the program: `a` stores its row as `result[0]` first, and its second `Decode(&row)` into
that map then races `b`'s merge. -/
theorem handleQuery_ungrouped_may_crash {a b : Fin r.shards.length} (hab : a ≠ b)
    {row obj : RowMap} {text : String} {rest : List RowMap} {close : Option String}
    (ha : replies a = .response 200 text ⟨.ok (), row :: obj :: rest, close⟩)
    (hobj : obj.entries ≠ [])
    (hb : (ungroupedOutcome (r.shards.get b) (replies b)).item ≠ none) :
    HandleUngroupedQuery r q replies none := by
  let outcome := fun w => ungroupedOutcome (r.shards.get w) (replies w)
  have houta : outcome a = ⟨some row, some obj,
      some ⟨"got multiple results for a non-group-by query", none⟩⟩ := by
    simp only [outcome, ha]
    rfl
  -- `a` passes the mutex first and owns `result[0]`
  have hfirst : Ungrouped.next r q outcome Ungrouped.init (.critical a) =
      ⟨[row], some a, Function.update (fun _ => .started) a .unlocked, none, false⟩ :=
    Ungrouped.next_critical_of_merge (by rw [houta]) rfl
  have hracy : Ungrouped.Racy outcome (Ungrouped.next r q outcome Ungrouped.init (.critical a)) := by
    rw [hfirst]
    exact ⟨a, b, rfl, by simp, ⟨obj, by rw [houta], hobj⟩,
      by simp [Function.update_of_ne (Ne.symm hab)], hb⟩
  refine ⟨Ungrouped.next r q outcome (Ungrouped.next r q outcome Ungrouped.init (.critical a))
      .crash, ?_, .inl ⟨rfl, rfl⟩⟩
  refine .head ⟨.critical a, ⟨rfl, rfl⟩, rfl⟩ (.single ⟨.crash, ⟨?_, hracy⟩, rfl⟩)
  rw [hfirst]

/-- Shard 0 streams two rows, shard 1 one. -/
def raceReplies : Fin 2 → ShardReply RowStream
  | 0 => .response 200 "" ⟨.ok (), [usRow 3 1, usRow 5 1], none⟩
  | 1 => .response 200 "" ⟨.ok (), [usRow 4 2], none⟩

theorem handleQuery_ungrouped_may_crash_race :
    (⟨0, Nat.zero_lt_two⟩ : Fin usRouter.shards.length) ≠ ⟨1, Nat.one_lt_two⟩ ∧
      raceReplies ⟨0, Nat.zero_lt_two⟩ =
        .response 200 "" ⟨.ok (), [usRow 3 1, usRow 5 1], none⟩ ∧
      (usRow 5 1).entries ≠ [] ∧
      (ungroupedOutcome (usRouter.shards.get ⟨1, Nat.one_lt_two⟩)
        (raceReplies ⟨1, Nat.one_lt_two⟩)).item ≠ none ∧
      HandleUngroupedQuery usRouter clicksQuery raceReplies none := by
  have hab : (⟨0, Nat.zero_lt_two⟩ : Fin usRouter.shards.length) ≠ ⟨1, Nat.one_lt_two⟩ := by
    decide
  have hobj : (usRow 5 1).entries ≠ [] := by simp [usRow]
  have hb : (ungroupedOutcome (usRouter.shards.get ⟨1, Nat.one_lt_two⟩)
      (raceReplies ⟨1, Nat.one_lt_two⟩)).item ≠ none := by
    simp [ungroupedOutcome, checkReply, raceReplies]
  exact ⟨hab, rfl, hobj, hb, handleQuery_ungrouped_may_crash hab rfl hobj hb⟩

end Handler

end Gumshoe
