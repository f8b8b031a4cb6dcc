import Gumshoe.Router
import Gumshoe.Lib.WaitGroup
import Mathlib.Data.List.Sort
import Mathlib.Data.String.Basic

/-!
# The router's handlers that ask every shard

`router.go`. Besides `HandleQuery` (the grouped merge in `Router.lean`, the ungrouped one in
`Ungrouped.lean`), three handlers send a request to every shard and combine the answers:

* `HandleSingleDimension` asks each shard, in a goroutine, for the values of a dimension and adds
  them to one Go map under a mutex. Once `Wait` returns it collects the map's keys, in the map's
  iteration order, and sorts them.
* `HandleStatusz` asks the shards one after another and keeps the latest `LastUpdated` and the
  oldest `OldestInterval`.
* `HandleInsert` checks every column of a batch of rows, splits the batch by the hash of each
  row's timestamp and dimensions, and sends each shard its part in a goroutine.

The goroutines are those of `Lib/WaitGroup.lean`: one critical section each, then a return, in
any interleaving. What a shard answers is an input (`ShardReply`): the client's error, or the
response's status, its body as text and its body as the JSON decoder reads it.

**Theorems.**

* `handleSingleDimension_sorted_union`: in every run, when every shard's list decodes, the
  response is the strictly increasing list of the values any shard listed, whatever the order
  of the goroutines and of the map's iteration; otherwise it is the error of a shard that failed.
* `handleStatusz_latest_oldest`: when every shard's status decodes, the response holds the
  greatest `LastUpdated` and the least `OldestInterval` that a shard reports; otherwise it is an
  error naming exactly the shards that failed, in order.
* `handleInsert_routes_rows`: a batch with an unknown column is rejected before any shard is
  sent anything; otherwise each shard is sent exactly the rows that hash to it, in order, and the
  response is empty exactly when every shard accepts its part.
-/

namespace Gumshoe

open Json

/-! ## Errors, responses and shard replies -/

/-- An `error` of the router: its text, and the status it carries when it is an `httpError`. -/
structure RouterError where
  msg : String
  code : Option Nat

/-- What a handler writes: `http.Error`'s status and text, or the value `WriteJSONResponse`
encodes. -/
inductive Response (β : Type)
  | error (status : Nat) (body : String)
  | json (value : β)
  /-- nothing written: a 200 with an empty body -/
  | empty

/-- `WriteError`: the status of an `httpError` overrides `status`, and `http.Error` ends the
text with a newline. -/
def writeError {β : Type} (err : RouterError) (status : Nat) : Response β :=
  .error (err.code.getD status) (err.msg ++ "\n")

/-- `body[:len(body)-1]` when the body ends with a newline. -/
def trimNewline (body : String) : String :=
  if body.back = '\n' then String.ofList body.toList.dropLast else body

/-- `NewHTTPError`: a shard answered with a status other than 200. A non-empty body follows the
message, less a final newline. -/
def newHTTPError (shard : String) (status : Nat) (body : String) : RouterError :=
  ⟨"non-200 response from shard " ++ shard ++ ": " ++ toString status ++
    (if body.isEmpty then "" else "\n" ++ trimNewline body), some status⟩

/-- What a request to a shard gives: the client's error, or a response with its status, its body
as text, and what the body decodes to. -/
inductive ShardReply (B : Type)
  | failed (err : String)
  | response (status : Nat) (text : String) (body : B)

/-- What a goroutine checks before it reads the body: the client's error, then a status other
than 200. -/
def checkReply {B : Type} (shard : String) : ShardReply B → Except RouterError B
  | .failed err => .error ⟨err, none⟩
  | .response status text body =>
    if status ≠ 200 then .error (newHTTPError shard status text) else .ok body

/-! ## `HandleSingleDimension` -/

/-- What the goroutine of `shard` adds: its answer decoded into a `[]string`. -/
def dimensionValues (shard : String) (reply : ShardReply (Except String (Json String))) :
    Except RouterError (List String) := do
  let body ← checkReply shard reply
  let j ← body.mapError (⟨·, none⟩)
  let result ← (decodeSlice decodeString "" "[]string" ⟨[], []⟩ j).mapError (⟨·, none⟩)
  pure result.elems

/-- The critical section: `dimValues[s] = struct{}{}` for each value. -/
def addDimensionValues (dimValues : List (String × Unit)) (values : List String) :
    List (String × Unit) :=
  values.foldl (fun m v => GoMap.upsert (· == ·) m v fun _ => ()) dimValues

/-- `sort.Strings`. Distinct strings have one increasing order, which every sort gives. -/
def sortStrings (xs : List String) : List String := xs.mergeSort fun a b => decide (a ≤ b)

/-- `WriteJSONResponse` of a `[]string`: a nil slice is `null`. -/
def encodeStrings : List String → Json String
  | [] => .null
  | xs => .arr (xs.map .str)

/-- The goroutines of `HandleSingleDimension`, shard `w` answering `replies w`. -/
def DimensionStep (r : Router)
    (replies : Fin r.shards.length → ShardReply (Except String (Json String))) :
    WaitGroup.State (List (String × Unit)) RouterError r.shards.length →
      WaitGroup.State (List (String × Unit)) RouterError r.shards.length → Prop :=
  WaitGroup.Step addDimensionValues fun w =>
    WaitGroup.Outcome.ofExcept (dimensionValues (r.shards.get w) (replies w))

/-- `HandleSingleDimension`: the responses the handler can write for the dimension `name`, over
every interleaving of its goroutines and every iteration order of the map. -/
def HandleSingleDimension (r : Router) (name : String)
    (replies : Fin r.shards.length → ShardReply (Except String (Json String)))
    (resp : Response (Json String)) : Prop :=
  if name = "" then resp = .error 400 ("must provide dimension name" ++ "\n")
  else ∃ s order, Relation.ReflTransGen (DimensionStep r replies) (WaitGroup.init []) s ∧
    WaitGroup.Done s ∧ order.Perm (s.shared.map (·.1)) ∧
    resp = match WaitGroup.wait s with
      | some err => writeError err 500
      | none => .json (encodeStrings (sortStrings order))

theorem mem_keys_foldl_addDimensionValues {v : String} :
    ∀ (items : List (List String)) (m : List (String × Unit)),
    v ∈ (items.foldl addDimensionValues m).map (·.1) ↔ v ∈ m.map (·.1) ∨ ∃ vs ∈ items, v ∈ vs
  | [], m => by simp
  | vs :: items, m => by
    rw [List.foldl_cons, mem_keys_foldl_addDimensionValues items, addDimensionValues,
      GoMap.mem_keys_foldl_upsert_beq]
    simp [or_assoc]

theorem nodup_keys_foldl_addDimensionValues :
    ∀ (items : List (List String)) {m : List (String × Unit)}, (m.map (·.1)).Nodup →
    ((items.foldl addDimensionValues m).map (·.1)).Nodup
  | [], _, hm => hm
  | vs :: items, _, hm =>
    nodup_keys_foldl_addDimensionValues items (GoMap.nodup_keys_foldl_upsert_beq _ vs hm)

/-- Sorting distinct strings gives them in strictly increasing order. -/
theorem pairwise_lt_sortStrings {xs : List String} (hxs : xs.Nodup) :
    (sortStrings xs).Pairwise (· < ·) := by
  have hle : (sortStrings xs).Pairwise (· ≤ ·) := List.pairwise_mergeSort' _ xs
  have hnd : (sortStrings xs).Nodup := (List.mergeSort_perm xs _).nodup_iff.mpr hxs
  exact (hle.and hnd).imp fun h => lt_of_le_of_ne h.1 h.2

theorem mem_sortStrings {xs : List String} {v : String} : v ∈ sortStrings xs ↔ v ∈ xs :=
  (List.mergeSort_perm xs _).mem_iff

/-- **`HandleSingleDimension` answers the sorted union.** For every dimension name, every answer
of the shards, every interleaving of the goroutines and every iteration order of the map: when
every shard's list decodes, the response is a strictly increasing list holding exactly the values
some shard listed, so every run gives the same response; when some shard fails, the response is
the error of a shard that failed. -/
theorem handleSingleDimension_sorted_union {r : Router} {name : String}
    {replies : Fin r.shards.length → ShardReply (Except String (Json String))}
    {resp : Response (Json String)} (h : HandleSingleDimension r name replies resp)
    (hname : name ≠ "") :
    (∀ vs : Fin r.shards.length → List String,
      (∀ w, dimensionValues (r.shards.get w) (replies w) = .ok (vs w)) →
      ∃ xs, resp = .json (encodeStrings xs) ∧ xs.Pairwise (· < ·) ∧ ∀ v, v ∈ xs ↔ ∃ w, v ∈ vs w) ∧
    (∀ w err, dimensionValues (r.shards.get w) (replies w) = .error err →
      ∃ w' err', dimensionValues (r.shards.get w') (replies w') = .error err' ∧
        resp = writeError err' 500) := by
  rw [HandleSingleDimension, if_neg hname] at h
  obtain ⟨s, order, hrun, hdone, hperm, hresp⟩ := h
  refine ⟨fun vs hvs => ?_, fun w err herr => ?_⟩
  · -- no goroutine fails, so `Wait` gives nil and the map holds every value
    have hitem : ∀ w, (WaitGroup.Outcome.ofExcept
        (dimensionValues (r.shards.get w) (replies w))).item = some (vs w) := fun w => by
      rw [hvs w]
      rfl
    have hwait : WaitGroup.wait s = none := by
      rw [WaitGroup.wait_eq_none_iff hrun hdone]
      intro w
      rw [hvs w]
      rfl
    obtain ⟨L, -, hL, -, hshared, -⟩ := WaitGroup.wait_of_done hrun hdone
    have hitems : (L.filterMap fun w => (WaitGroup.Outcome.ofExcept
        (dimensionValues (r.shards.get w) (replies w))).item) = L.map vs := by
      simp only [hitem]
      exact congrFun List.filterMap_eq_map L
    have hnd : (s.shared.map (·.1)).Nodup := by
      rw [hshared, hitems]
      exact nodup_keys_foldl_addDimensionValues _ List.nodup_nil
    refine ⟨sortStrings order, by rw [hresp, hwait], pairwise_lt_sortStrings
      (hperm.nodup_iff.mpr hnd), fun v => ?_⟩
    rw [mem_sortStrings, hperm.mem_iff, hshared, hitems, mem_keys_foldl_addDimensionValues]
    simp [hL.mem_iff]
  · -- a goroutine fails, so `Wait` gives the error of one that failed
    obtain ⟨w', err', hw', hwait⟩ := WaitGroup.exists_wait_eq_some hrun hdone (w := w) (by
      rw [herr]
      exact Option.some_ne_none err)
    exact ⟨w', err', WaitGroup.Outcome.ofExcept_err_eq_some.mp hw', by rw [hresp, hwait]⟩

/-- Two shards listing overlapping values. -/
def dimReplies : Fin 2 → ShardReply (Except String (Json String))
  | 0 => .response 200 "" (.ok (.arr [.str "us", .str "fr"]))
  | 1 => .response 200 "" (.ok (.arr [.str "fr", .str "de"]))

def dimRun : WaitGroup.State (List (String × Unit)) RouterError usRouter.shards.length :=
  let next := WaitGroup.next addDimensionValues fun w =>
    WaitGroup.Outcome.ofExcept (dimensionValues (usRouter.shards.get w) (dimReplies w))
  next (next (next (next (WaitGroup.init []) (.critical ⟨0, Nat.zero_lt_two⟩))
    (.exit ⟨0, Nat.zero_lt_two⟩)) (.critical ⟨1, Nat.one_lt_two⟩)) (.exit ⟨1, Nat.one_lt_two⟩)

theorem handleSingleDimension_sorted_union_usfr :
    HandleSingleDimension usRouter "country" dimReplies
      (.json (encodeStrings (sortStrings ["us", "fr", "de"]))) ∧ "country" ≠ "" ∧
    (∀ vs : Fin usRouter.shards.length → List String,
      (∀ w, dimensionValues (usRouter.shards.get w) (dimReplies w) = .ok (vs w)) →
      ∃ xs, (.json (encodeStrings (sortStrings ["us", "fr", "de"])) : Response (Json String)) =
        .json (encodeStrings xs) ∧ xs.Pairwise (· < ·) ∧ ∀ v, v ∈ xs ↔ ∃ w, v ∈ vs w) ∧
    (∀ w err, dimensionValues (usRouter.shards.get w) (dimReplies w) = .error err →
      ∃ w' err', dimensionValues (usRouter.shards.get w') (dimReplies w') = .error err' ∧
        (.json (encodeStrings (sortStrings ["us", "fr", "de"])) : Response (Json String)) =
          writeError err' 500) := by
  have hname : "country" ≠ "" := by decide
  have h : HandleSingleDimension usRouter "country" dimReplies
      (.json (encodeStrings (sortStrings ["us", "fr", "de"]))) := by
    unfold HandleSingleDimension
    rw [if_neg hname]
    refine ⟨dimRun, ["us", "fr", "de"], ?_, fun w => ?_, .refl _, rfl⟩
    · -- each shard's goroutine adds its values, then returns
      refine .head ⟨.critical ⟨0, Nat.zero_lt_two⟩, rfl, rfl⟩
        (.head ⟨.exit ⟨0, Nat.zero_lt_two⟩, rfl, rfl⟩
        (.head ⟨.critical ⟨1, Nat.one_lt_two⟩, rfl, rfl⟩
        (.single ⟨.exit ⟨1, Nat.one_lt_two⟩, rfl, rfl⟩)))
    · obtain ⟨_ | _ | n, hn⟩ := w
      · rfl
      · rfl
      · simp only [usRouter, List.length_cons, List.length_nil] at hn
        omega
  exact ⟨h, hname, handleSingleDimension_sorted_union h hname⟩

/-! ## `HandleStatusz` -/

/-- `Statusz`: two optional times. -/
structure Statusz where
  lastUpdated : Option Int64
  oldestInterval : Option Int64

section Statusz

-- `fold` matches member names to field names; `parseInt` is `strconv.ParseInt` of a number
-- literal, which the decoder uses for an `int64`.
variable (fold : String → String → Bool) (parseInt : String → Option Int64)

/-- Decoding into a `*int64` field: `null` makes it nil, and a number must be an `int64`. -/
def decodeInt64Ptr : Json String → Except String (Option Int64)
  | .null => .ok none
  | .num s =>
    match parseInt s with
    | some x => .ok (some x)
    | none => .error ("json: cannot unmarshal number " ++ s ++ " into Go value of type int64")
  | j => .error (typeError j "int64")

def statuszFields : List String := ["LastUpdated", "OldestInterval"]

/-- Decoding a member value into a field of a `Statusz`. -/
def setStatuszField : Nat → Json String → Statusz → Except String Statusz
  | 0, v, st => do
    let x ← decodeInt64Ptr parseInt v
    pure { st with lastUpdated := x }
  | _, v, st => do
    let x ← decodeInt64Ptr parseInt v
    pure { st with oldestInterval := x }

/-- What a shard's answer gives `status2`: its body decoded into a zero `Statusz`. The status of
the response is not checked. -/
def statuszOf : ShardReply (Except String (Json String)) → Except String Statusz
  | .failed err => .error err
  | .response _ _ body => do
    let j ← body
    decodeStruct fold statuszFields (setStatuszField parseInt) "main.Statusz" ⟨none, none⟩ j

/-- `if cur == nil || (new != nil && better(*new, *cur)) { cur = new }`. -/
def replaceIf (better : Int64 → Int64 → Bool) (cur new : Option Int64) : Option Int64 :=
  match cur, new with
  | none, _ => new
  | some c, some n => if better n c then some n else some c
  | some c, none => some c

/-- `status2` folded into `status`: the later `LastUpdated` and the older `OldestInterval`. -/
def mergeStatusz (status status2 : Statusz) : Statusz :=
  ⟨replaceIf (fun n c => decide (n > c)) status.lastUpdated status2.lastUpdated,
    replaceIf (fun n c => decide (n < c)) status.oldestInterval status2.oldestInterval⟩

/-- One turn of `HandleStatusz`'s loop: a shard whose answer fails is added to `failed`, and the
status of any other is folded into `status`. -/
def statuszStep (acc : Statusz × List String) (shard : String)
    (reply : ShardReply (Except String (Json String))) : Statusz × List String :=
  match statuszOf fold parseInt reply with
  | .error _ => (acc.1, acc.2 ++ [shard])
  | .ok status2 => (mergeStatusz acc.1 status2, acc.2)

/-- The error listing the shards that could not be contacted, one per line. -/
def contactError (failed : List String) : RouterError :=
  ⟨"Could not contact shards:\n" ++ String.join (failed.map (· ++ "\n")), none⟩

/-- `HandleStatusz`: the shards asked in order. -/
def handleStatusz (r : Router)
    (replies : Fin r.shards.length → ShardReply (Except String (Json String))) :
    Response Statusz :=
  let (status, failed) := (List.finRange r.shards.length).foldl
    (fun acc i => statuszStep fold parseInt acc (r.shards.get i) (replies i)) (⟨none, none⟩, [])
  if failed.length > 0 then writeError (contactError failed) 500 else .json status

/-- The loop folds the statuses of the shards that answer, in order, and lists the others. -/
theorem foldl_statuszStep {ι : Type} (name : ι → String)
    (reply : ι → ShardReply (Except String (Json String))) :
    ∀ (is : List ι) (acc : Statusz × List String),
    is.foldl (fun acc i => statuszStep fold parseInt acc (name i) (reply i)) acc =
      ((is.filterMap fun i => (statuszOf fold parseInt (reply i)).toOption).foldl mergeStatusz
          acc.1,
        acc.2 ++ (is.filter fun i => !(statuszOf fold parseInt (reply i)).isOk).map name)
  | [], acc => by simp
  | i :: is, acc => by
    rw [List.foldl_cons, foldl_statuszStep name reply is, statuszStep]
    cases h : statuszOf fold parseInt (reply i) <;>
      simp [h, Except.toOption, Except.isOk, Except.toBool]

end Statusz

/-- A run of `replaceIf` keeps a greatest value under `key`: every value seen is at most the one
kept, and the one kept was seen. -/
theorem foldl_replaceIf {better : Int64 → Int64 → Bool} (key : Int64 → Int)
    (hbetter : ∀ n c, better n c = decide (key c < key n)) :
    ∀ (xs : List (Option Int64)) (cur : Option Int64),
    (∀ v, (cur = some v ∨ some v ∈ xs) → ∃ m, xs.foldl (replaceIf better) cur = some m ∧
      key v ≤ key m) ∧
    ∀ m, xs.foldl (replaceIf better) cur = some m → cur = some m ∨ some m ∈ xs
  | [], cur => by
    refine ⟨fun v hv => ?_, fun m hm => .inl hm⟩
    rcases hv with hv | hv
    · exact ⟨v, hv, le_refl _⟩
    · cases hv
  | x :: xs, cur => by
    obtain ⟨hgreat, hseen⟩ := foldl_replaceIf key hbetter xs (replaceIf better cur x)
    -- one turn keeps the greater of `cur` and `x`, or whichever is not nil
    have hstep : (∀ v, (cur = some v ∨ x = some v) →
        ∃ m, replaceIf better cur x = some m ∧ key v ≤ key m) ∧
        ∀ m, replaceIf better cur x = some m → cur = some m ∨ x = some m := by
      match cur, x with
      | none, x =>
        refine ⟨fun v hv => ⟨v, ?_, le_refl _⟩, fun m hm => .inr hm⟩
        rcases hv with hv | hv
        · cases hv
        · exact hv
      | some c, none =>
        refine ⟨fun v hv => ⟨c, rfl, ?_⟩, fun m hm => .inl hm⟩
        rcases hv with hv | hv <;> cases hv
        exact le_refl _
      | some c, some n =>
        by_cases hb : better n c
        · have hlt : key c < key n := of_decide_eq_true ((hbetter n c).symm.trans hb)
          have hr : replaceIf better (some c) (some n) = some n := by simp [replaceIf, hb]
          refine ⟨fun v hv => ⟨n, hr, ?_⟩, fun m hm => .inr (hr ▸ hm)⟩
          rcases hv with hv | hv <;> cases hv
          · exact hlt.le
          · exact le_refl _
        · have hle : key n ≤ key c := by
            rw [hbetter, decide_eq_true_iff] at hb
            exact not_lt.mp hb
          have hr : replaceIf better (some c) (some n) = some c := by simp [replaceIf, hb]
          refine ⟨fun v hv => ⟨c, hr, ?_⟩, fun m hm => .inl (hr ▸ hm)⟩
          rcases hv with hv | hv <;> cases hv
          · exact le_refl _
          · exact hle
    refine ⟨fun v hv => ?_, fun m hm => ?_⟩
    · rw [List.foldl_cons]
      rcases hv with hv | hv
      · obtain ⟨m₁, hm₁, hv₁⟩ := hstep.1 v (.inl hv)
        obtain ⟨m, hm, hm₁m⟩ := hgreat m₁ (.inl hm₁)
        exact ⟨m, hm, le_trans hv₁ hm₁m⟩
      · rcases List.mem_cons.mp hv with hv | hv
        · obtain ⟨m₁, hm₁, hv₁⟩ := hstep.1 v (.inr hv.symm)
          obtain ⟨m, hm, hm₁m⟩ := hgreat m₁ (.inl hm₁)
          exact ⟨m, hm, le_trans hv₁ hm₁m⟩
        · exact hgreat v (.inr hv)
    · rw [List.foldl_cons] at hm
      rcases hseen m hm with hm | hm
      · rcases hstep.2 m hm with hm | hm
        · exact .inl hm
        · exact .inr (hm ▸ List.mem_cons_self)
      · exact .inr (List.mem_cons_of_mem x hm)

/-- Folding statuses keeps, field by field, a run of `replaceIf`. -/
theorem foldl_mergeStatusz : ∀ (sts : List Statusz) (st : Statusz),
    sts.foldl mergeStatusz st =
      ⟨(sts.map (·.lastUpdated)).foldl (replaceIf fun n c => decide (n > c)) st.lastUpdated,
        (sts.map (·.oldestInterval)).foldl (replaceIf fun n c => decide (n < c))
          st.oldestInterval⟩
  | [], _ => rfl
  | x :: xs, st => by
    rw [List.foldl_cons, foldl_mergeStatusz xs]
    rfl

/-- The greatest of some optional values under `key`, kept by a run of `replaceIf` from nil. -/
theorem foldl_replaceIf_none {ι : Type} {better : Int64 → Int64 → Bool} (key : Int64 → Int)
    (hbetter : ∀ n c, better n c = decide (key c < key n)) (is : List ι) (f : ι → Option Int64) :
    (∀ i ∈ is, ∀ v, f i = some v → ∃ m, (is.map f).foldl (replaceIf better) none = some m ∧
      key v ≤ key m) ∧
    ∀ m, (is.map f).foldl (replaceIf better) none = some m → ∃ i ∈ is, f i = some m := by
  obtain ⟨hgreat, hseen⟩ := foldl_replaceIf key hbetter (is.map f) none
  refine ⟨fun i hi v hv => hgreat v (.inr (List.mem_map.mpr ⟨i, hi, hv⟩)), fun m hm => ?_⟩
  rcases hseen m hm with hm | hm
  · cases hm
  · exact List.mem_map.mp hm

variable (fold : String → String → Bool) (parseInt : String → Option Int64) in
/-- **`HandleStatusz` reports the latest update and the oldest interval.** For every answer of
the shards: when every shard's status decodes, the response is a status whose `LastUpdated` is
the greatest any shard reports and whose `OldestInterval` is the least any shard reports, each
nil when no shard reports one; when some shard fails, the response is a 500 naming exactly the
shards that failed, in the order they were asked. -/
theorem handleStatusz_latest_oldest (r : Router)
    (replies : Fin r.shards.length → ShardReply (Except String (Json String))) :
    (∀ sts : Fin r.shards.length → Statusz,
      (∀ i, statuszOf fold parseInt (replies i) = .ok (sts i)) →
      ∃ st, handleStatusz fold parseInt r replies = .json st ∧
        (∀ i v, (sts i).lastUpdated = some v → ∃ m, st.lastUpdated = some m ∧ v ≤ m) ∧
        (∀ m, st.lastUpdated = some m → ∃ i, (sts i).lastUpdated = some m) ∧
        (∀ i v, (sts i).oldestInterval = some v → ∃ m, st.oldestInterval = some m ∧ m ≤ v) ∧
        (∀ m, st.oldestInterval = some m → ∃ i, (sts i).oldestInterval = some m)) ∧
    (∀ i e, statuszOf fold parseInt (replies i) = .error e →
      handleStatusz fold parseInt r replies = writeError (contactError
        (((List.finRange r.shards.length).filter fun i =>
          !(statuszOf fold parseInt (replies i)).isOk).map r.shards.get)) 500) := by
  have hloop := foldl_statuszStep fold parseInt r.shards.get replies
    (List.finRange r.shards.length) (⟨none, none⟩, [])
  refine ⟨fun sts hsts => ?_, fun i e he => ?_⟩
  · -- no shard fails: the loop folds every status, in the shards' order
    have hok : ((List.finRange r.shards.length).filterMap fun i =>
        (statuszOf fold parseInt (replies i)).toOption) =
          (List.finRange r.shards.length).map sts := by
      simp [hsts, Except.toOption]
    have hnone : ((List.finRange r.shards.length).filter fun i =>
        !(statuszOf fold parseInt (replies i)).isOk) = [] := by
      simp [hsts, Except.isOk, Except.toBool]
    rw [hok, hnone, foldl_mergeStatusz] at hloop
    obtain ⟨hlate, hlateSeen⟩ := foldl_replaceIf_none Int64.toInt
      (fun n c => decide_eq_decide.mpr Int64.lt_iff_toInt_lt) (List.finRange r.shards.length)
      fun i => (sts i).lastUpdated
    obtain ⟨hold, holdSeen⟩ := foldl_replaceIf_none (fun x => -x.toInt)
      (fun n c => decide_eq_decide.mpr (Int64.lt_iff_toInt_lt.trans neg_lt_neg_iff.symm))
      (List.finRange r.shards.length) fun i => (sts i).oldestInterval
    simp only [List.map_map] at hloop
    refine ⟨_, by simp only [handleStatusz, hloop]; rfl, fun i v hv => ?_, fun m hm => ?_,
      fun i v hv => ?_, fun m hm => ?_⟩
    · obtain ⟨m, hm, hvm⟩ := hlate i (List.mem_finRange i) v hv
      exact ⟨m, hm, Int64.le_iff_toInt_le.mpr hvm⟩
    · obtain ⟨i, -, hi⟩ := hlateSeen m hm
      exact ⟨i, hi⟩
    · obtain ⟨m, hm, hvm⟩ := hold i (List.mem_finRange i) v hv
      exact ⟨m, hm, Int64.le_iff_toInt_le.mpr (neg_le_neg_iff.mp hvm)⟩
    · obtain ⟨i, -, hi⟩ := holdSeen m hm
      exact ⟨i, hi⟩
  · -- shard `i` fails, so the list of failed shards is not empty
    have hmem : i ∈ (List.finRange r.shards.length).filter fun i =>
        !(statuszOf fold parseInt (replies i)).isOk := by
      simp [he, Except.isOk, Except.toBool]
    have hpos : 0 < ((List.finRange r.shards.length).filter fun i =>
        !(statuszOf fold parseInt (replies i)).isOk).length := List.length_pos_of_mem hmem
    simp only [handleStatusz, hloop, List.nil_append, List.length_map, gt_iff_lt, hpos, if_true]

/-! ## `HandleInsert` -/

/-- `Hash`: the shard of a row, from the CRC-32 of the JSON encodings of its timestamp and of its
dimension values, in the schema's order; `crc` is that checksum. -/
def Router.hash (r : Router) (crc : List (Option Untyped) → UInt32) (row : RowMap) : Nat :=
  (crc (row.get? r.schema.timestampColumn.name ::
    r.schema.dimensionColumns.map fun col => row.get? col.name)).toNat % r.shards.length

/-- The loop of `HandleInsert` over the batch: a column the schema does not know, met in the
iteration order `cols` gives each row, rejects the batch; every other row is appended to the
batch of the shard `hash` picks. -/
def Router.shardRows (r : Router) (hash : RowMap → Nat) (cols : RowMap → List String) :
    List (List RowMap) → List RowMap → Except String (List (List RowMap))
  | sharded, [] => .ok sharded
  | sharded, row :: rows =>
    match (cols row).find? fun col => !r.validColumnName col with
    | some col => .error col
    | none => r.shardRows hash cols (sharded.modify (hash row) (· ++ [row])) rows

/-- The goroutine of a shard: it sends the shard its batch, and fails when the request fails or
the status is not 200. Nothing is shared. -/
def insertOutcome (shard : String) (reply : ShardReply Unit) : WaitGroup.Outcome Unit RouterError :=
  ⟨none, match checkReply shard reply with
    | .error err => some err
    | .ok () => none⟩

/-- `HandleInsert`: the batches sent to the shards (none when the batch is rejected) and the
response, over every iteration order of each row's columns and every interleaving of the
goroutines; shard `w` answers its request with `replies w`. `quote` is `%q`. -/
def HandleInsert (r : Router) (crc : List (Option Untyped) → UInt32) (quote : String → String)
    (rows : List RowMap) (replies : Fin r.shards.length → ShardReply Unit)
    (sent : Option (List (List RowMap))) (resp : Response Unit) : Prop :=
  ∃ cols : RowMap → List String, (∀ row ∈ rows, (cols row).Perm (row.entries.map (·.1))) ∧
    match r.shardRows (r.hash crc) cols (List.replicate r.shards.length []) rows with
    | .error col =>
      sent = none ∧ resp = writeError ⟨quote col ++ " is not a valid column name", none⟩ 400
    | .ok sharded =>
      sent = some sharded ∧ ∃ s, Relation.ReflTransGen (WaitGroup.Step (fun _ _ => ())
          fun w => insertOutcome (r.shards.get w) (replies w)) (WaitGroup.init ()) s ∧
        WaitGroup.Done s ∧
        resp = match WaitGroup.wait s with
          | some err => writeError err 500
          | none => .empty

section Sharding

variable {r : Router} (hash : RowMap → Nat) {cols : RowMap → List String}

/-- A row whose columns the schema all knows passes the check. -/
theorem find?_invalid_eq_none {row : RowMap} (h : ∀ col ∈ cols row, r.validColumnName col = true) :
    ((cols row).find? fun col => !r.validColumnName col) = none := by
  rw [List.find?_eq_none]
  intro col hcol
  simp [h col hcol]

/-- Appending a row to the batch it hashes to adds it to that batch's filter. -/
theorem modify_append_mapIdx (rows : List RowMap) (row : RowMap) (sharded : List (List RowMap)) :
    (sharded.modify (hash row) (· ++ [row])).mapIdx
        (fun i l => l ++ rows.filter fun row' => hash row' = i) =
      sharded.mapIdx fun i l => l ++ (row :: rows).filter fun row' => hash row' = i := by
  apply List.ext_getElem?
  intro i
  simp only [List.getElem?_mapIdx, List.getElem?_modify]
  by_cases hi : hash row = i
  · subst hi
    cases sharded[hash row]? <;> simp
  · cases sharded[i]? <;> simp [hi]

/-- On a batch of known columns, the loop appends to each shard's batch the rows that hash to
it, in order. -/
theorem shardRows_eq_ok :
    ∀ (rows : List RowMap) (sharded : List (List RowMap)),
    (∀ row ∈ rows, ∀ col ∈ cols row, r.validColumnName col = true) →
    r.shardRows hash cols sharded rows =
      .ok (sharded.mapIdx fun i l => l ++ rows.filter fun row => hash row = i)
  | [], sharded, _ => by
    rw [Router.shardRows]
    congr 1
    apply List.ext_getElem?
    intro i
    simp [List.getElem?_mapIdx]
  | row :: rows, sharded, hvalid => by
    rw [Router.shardRows, find?_invalid_eq_none (hvalid row List.mem_cons_self), shardRows_eq_ok rows _
      (fun row' h' => hvalid row' (List.mem_cons_of_mem row h')), modify_append_mapIdx]

/-- Rows of known columns before the first row with an unknown one are sharded, and that row
rejects the batch with the first unknown column in its iteration order. -/
theorem shardRows_eq_error :
    ∀ (pre : List RowMap) (row : RowMap) (post : List RowMap) (sharded : List (List RowMap)),
    (∀ row' ∈ pre, ∀ col ∈ cols row', r.validColumnName col = true) →
    (∃ col ∈ cols row, r.validColumnName col = false) →
    ∃ col ∈ cols row, r.validColumnName col = false ∧
      r.shardRows hash cols sharded (pre ++ row :: post) = .error col
  | [], row, post, sharded, _, hbad => by
    obtain ⟨col₀, hcol₀, hinvalid₀⟩ := hbad
    obtain ⟨col, hfind⟩ : ∃ col, ((cols row).find? fun col => !r.validColumnName col) = some col :=
      Option.isSome_iff_exists.mp (List.find?_isSome.mpr ⟨col₀, hcol₀, by simp [hinvalid₀]⟩)
    refine ⟨col, List.mem_of_find?_eq_some hfind, by simpa using List.find?_some hfind, ?_⟩
    rw [List.nil_append, Router.shardRows, hfind]
  | row' :: pre, row, post, sharded, hvalid, hbad => by
    obtain ⟨col, hcol, hinvalid, h⟩ := shardRows_eq_error pre row post
      (sharded.modify (hash row') (· ++ [row']))
      (fun r' h' => hvalid r' (List.mem_cons_of_mem _ h')) hbad
    exact ⟨col, hcol, hinvalid, by
      rw [List.cons_append, Router.shardRows,
        find?_invalid_eq_none (hvalid row' List.mem_cons_self), h]⟩

end Sharding

/-- **`HandleInsert` sends each row to the shard it hashes to.** For every batch of rows, every
iteration order of their columns, every answer of the shards and every interleaving of the
goroutines: when a row has a column the schema does not know, the batch is rejected with a 400
naming an unknown column of the first such row, before any shard is sent anything; otherwise shard
`i` is sent exactly the rows that hash to `i`, in the batch's order, and the response is empty
when every shard accepts its batch and is the error of a shard that failed when one does not. -/
theorem handleInsert_routes_rows {r : Router} {crc : List (Option Untyped) → UInt32}
    {quote : String → String} {rows : List RowMap} {replies : Fin r.shards.length → ShardReply Unit}
    {sent : Option (List (List RowMap))} {resp : Response Unit}
    (h : HandleInsert r crc quote rows replies sent resp) :
    (∀ pre row post, rows = pre ++ row :: post →
      (∀ row' ∈ pre, ∀ col ∈ row'.entries.map (·.1), r.validColumnName col = true) →
      (∃ col ∈ row.entries.map (·.1), r.validColumnName col = false) →
      sent = none ∧ ∃ col ∈ row.entries.map (·.1), r.validColumnName col = false ∧
        resp = writeError ⟨quote col ++ " is not a valid column name", none⟩ 400) ∧
    ((∀ row ∈ rows, ∀ col ∈ row.entries.map (·.1), r.validColumnName col = true) →
      ∃ sharded, sent = some sharded ∧ sharded.length = r.shards.length ∧
        (∀ i < r.shards.length, sharded.getD i [] = rows.filter fun row => r.hash crc row = i) ∧
        (resp = .empty ↔ ∀ w, (insertOutcome (r.shards.get w) (replies w)).err = none) ∧
        ∀ w, (insertOutcome (r.shards.get w) (replies w)).err ≠ none →
          ∃ w' err, (insertOutcome (r.shards.get w') (replies w')).err = some err ∧
            resp = writeError err 500) := by
  obtain ⟨cols, hcols, hrun⟩ := h
  refine ⟨fun pre row post hrows hpre hbad => ?_, fun hvalid => ?_⟩
  · -- the first row with an unknown column stops the loop before any goroutine starts
    have hrow : (cols row).Perm (row.entries.map (·.1)) :=
      hcols row (hrows ▸ List.mem_append_right _ List.mem_cons_self)
    have hpre' : ∀ row' ∈ pre, ∀ col ∈ cols row', r.validColumnName col = true :=
      fun row' h' col hc =>
        hpre row' h' col ((hcols row' (hrows ▸ List.mem_append_left _ h')).mem_iff.mp hc)
    obtain ⟨col₀, hcol₀, hinvalid₀⟩ := hbad
    obtain ⟨col, hcol, hinvalid, herr⟩ := shardRows_eq_error (r.hash crc) pre row post
      (List.replicate r.shards.length []) hpre' ⟨col₀, hrow.mem_iff.mpr hcol₀, hinvalid₀⟩
    rw [← hrows] at herr
    rw [herr] at hrun
    obtain ⟨hsent, hresp⟩ := hrun
    exact ⟨hsent, col, hrow.mem_iff.mp hcol, hinvalid, hresp⟩
  · have hok := shardRows_eq_ok (r := r) (r.hash crc) rows
      (List.replicate r.shards.length []) fun row h' col hc =>
        hvalid row h' col ((hcols row h').mem_iff.mp hc)
    rw [hok] at hrun
    obtain ⟨hsent, s, hrun, hdone, hresp⟩ := hrun
    refine ⟨_, hsent, by simp, fun i hi => ?_, ?_, fun w hw => ?_⟩
    · simp [List.getD_eq_getElem?_getD, hi]
    · constructor
      · intro hempty w
        cases hwait : WaitGroup.wait s with
        | none => exact (WaitGroup.wait_eq_none_iff hrun hdone).mp hwait w
        | some err => rw [hresp, hwait] at hempty; cases hempty
      · intro hall
        rw [hresp, (WaitGroup.wait_eq_none_iff hrun hdone).mpr hall]
    · obtain ⟨w', err, hw', hwait⟩ := WaitGroup.exists_wait_eq_some hrun hdone hw
      exact ⟨w', err, hw', by rw [hresp, hwait]⟩

/-- A row of the `usSchema` columns only. -/
def clicksRow : RowMap :=
  ⟨[("at", .float64 (F64.ofNat 3600)), ("country", .string "us"),
    ("clicks", .float64 (F64.ofNat 2))], by simp⟩

def acceptReplies : Fin 2 → ShardReply Unit := fun _ => .response 200 "" ()

def acceptRun : WaitGroup.State Unit RouterError usRouter.shards.length :=
  let next := WaitGroup.next (fun _ _ => ()) fun w =>
    insertOutcome (usRouter.shards.get w) (acceptReplies w)
  next (next (next (next (WaitGroup.init ()) (.critical ⟨0, Nat.zero_lt_two⟩))
    (.exit ⟨0, Nat.zero_lt_two⟩)) (.critical ⟨1, Nat.one_lt_two⟩)) (.exit ⟨1, Nat.one_lt_two⟩)

theorem handleInsert_routes_rows_clicks :
    HandleInsert usRouter (fun _ => 7) id [clicksRow] acceptReplies (some [[], [clicksRow]])
      .empty ∧
    (∀ pre row post, [clicksRow] = pre ++ row :: post →
      (∀ row' ∈ pre, ∀ col ∈ row'.entries.map (·.1), usRouter.validColumnName col = true) →
      (∃ col ∈ row.entries.map (·.1), usRouter.validColumnName col = false) →
      some [[], [clicksRow]] = none ∧ ∃ col ∈ row.entries.map (·.1),
        usRouter.validColumnName col = false ∧
        (.empty : Response Unit) = writeError ⟨id col ++ " is not a valid column name", none⟩ 400) ∧
    ((∀ row ∈ [clicksRow], ∀ col ∈ row.entries.map (·.1), usRouter.validColumnName col = true) →
      ∃ sharded, some [[], [clicksRow]] = some sharded ∧ sharded.length = usRouter.shards.length ∧
        (∀ i < usRouter.shards.length,
          sharded.getD i [] = [clicksRow].filter fun row => usRouter.hash (fun _ => 7) row = i) ∧
        ((.empty : Response Unit) = .empty ↔
          ∀ w, (insertOutcome (usRouter.shards.get w) (acceptReplies w)).err = none) ∧
        ∀ w, (insertOutcome (usRouter.shards.get w) (acceptReplies w)).err ≠ none →
          ∃ w' err, (insertOutcome (usRouter.shards.get w') (acceptReplies w')).err = some err ∧
            (.empty : Response Unit) = writeError err 500) := by
  have h : HandleInsert usRouter (fun _ => 7) id [clicksRow] acceptReplies
      (some [[], [clicksRow]]) .empty := by
    refine ⟨fun row => row.entries.map (·.1), fun row _ => .refl _, ?_⟩
    have hsharded : usRouter.shardRows (usRouter.hash fun _ => 7)
        (fun row => row.entries.map (·.1)) (List.replicate usRouter.shards.length [])
        [clicksRow] = .ok [[], [clicksRow]] := rfl
    rw [hsharded]
    refine ⟨rfl, acceptRun, ?_, fun w => ?_, rfl⟩
    · -- each goroutine sends its batch and returns nil
      refine .head ⟨.critical ⟨0, Nat.zero_lt_two⟩, rfl, rfl⟩
        (.head ⟨.exit ⟨0, Nat.zero_lt_two⟩, rfl, rfl⟩
        (.head ⟨.critical ⟨1, Nat.one_lt_two⟩, rfl, rfl⟩
        (.single ⟨.exit ⟨1, Nat.one_lt_two⟩, rfl, rfl⟩)))
    · obtain ⟨_ | _ | n, hn⟩ := w
      · rfl
      · rfl
      · simp only [usRouter, List.length_cons, List.length_nil] at hn
        omega
  exact ⟨h, handleInsert_routes_rows h⟩

end Gumshoe
