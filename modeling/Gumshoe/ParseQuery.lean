import Gumshoe.Lib.Json
import Gumshoe.Types

/-!
# Parsing queries

`parse_query.go`: `ParseJSONQuery` decodes a JSON query into a `Query` with `encoding/json`,
through the `UnmarshalJSON` methods of aggregates, groupings and the three enumerations, and
`json.Marshal` writes a query back through their `MarshalJSON` methods. The router parses each
query it receives and sends `json.Marshal(query)` on to every shard.

**Theorem (`parseJSONQuery_marshalQuery`).** What `ParseJSONQuery` returns, written by
`json.Marshal` and parsed again, comes back unchanged: the same aggregates, groupings and
filters, with the same defaulted names.

The proof goes through a well-formedness predicate, `Query.WF`: a name is empty only with its
column (the default names leave no other empty name), and a filter value is in the normal form of
decoding into an interface, its numbers what the decoder reads. Decoding gives well-formed queries
(`parseJSONQuery_wf`), and a well-formed query decodes back from its encoding
(`parseJSONQuery_marshalQuery_of_wf`). The asymmetric encodings agree on well-formed values:
`TimeTruncationNone` is left out and decodes from the zero value, a grouping written as an object
is read as one, and the filter names come back through `filterNameToType`.

The input is a JSON value whose numbers are their literal texts (`Lib/Json.lean` gives the
decoder's rules). The parameters are what lies below that level: `fold`, the case-insensitive
match of member names to field names; `quote`, Go's `%q` of a string; `raw`, the bytes of an
element as written, which only error texts show; `parseFloat`, `strconv.ParseFloat` of a number
literal (`none` out of range); `formatFloat` and `fmtG`, the encoder's and `%v`'s texts of a
`float64`.
-/

namespace Gumshoe

open Json

/-! ## Query types -/

/-- `AggregateType`. -/
inductive AggregateType
  | sum | avg
deriving DecidableEq, Repr

/-- `TimeTruncationType`. -/
inductive TimeTruncationType
  | none | minute | hour | day
deriving DecidableEq, Repr

/-- `FilterType`, in the order of its constants. -/
inductive FilterType
  | equal | notEqual | greaterThan | greaterThenOrEqual | lessThan | lessThanOrEqual | «in»
deriving DecidableEq, Repr

/-- `filterTypeToName`. -/
def filterTypeToName : FilterType → String
  | .equal => "="
  | .notEqual => "!="
  | .greaterThan => ">"
  | .greaterThenOrEqual => ">="
  | .lessThan => "<"
  | .lessThanOrEqual => "<="
  | .«in» => "in"

/-- `filterNameToType`. -/
def filterNameToType : String → Option FilterType
  | "=" => some .equal
  | "!=" => some .notEqual
  | ">" => some .greaterThan
  | ">=" => some .greaterThenOrEqual
  | "<" => some .lessThan
  | "<=" => some .lessThanOrEqual
  | "in" => some .«in»
  | _ => none

/-- The two tables are inverse. -/
theorem filterNameToType_filterTypeToName (t : FilterType) :
    filterNameToType (filterTypeToName t) = some t := by
  cases t <;> rfl

/-- `QueryAggregate`. -/
structure QueryAggregate where
  type : AggregateType
  column : String
  name : String
deriving DecidableEq, Repr

/-- `QueryGrouping`. -/
structure QueryGrouping where
  timeTransform : TimeTruncationType
  column : String
  name : String
deriving DecidableEq, Repr

/-- `QueryFilter`: the value is what decoding into an interface gives. -/
structure QueryFilter where
  type : FilterType
  column : String
  value : Json F64

/-- `Query`. -/
structure Query where
  aggregates : List QueryAggregate
  groupings : List QueryGrouping
  filters : List QueryFilter

/-! ## Decoding -/

section Unmarshal

-- `fold` matches member names to field names; `quote` is `%q`; `raw` is an element's text as
-- written; `parseFloat` reads a number literal
variable (fold : String → String → Bool) (quote : String → String)
  (raw : Json String → String) (parseFloat : String → Option F64)

/-- `AggregateType.UnmarshalJSON`. -/
def AggregateType.unmarshalJSON (b : Json String) : Except String AggregateType := do
  let name ← decodeString "" b
  match name with
  | "sum" => .ok .sum
  | "average" => .ok .avg
  | _ => .error ("bad aggregate type: " ++ quote name)

/-- `TimeTruncationType.UnmarshalJSON`. -/
def TimeTruncationType.unmarshalJSON (b : Json String) : Except String TimeTruncationType :=
  match b with
  | .null => .ok .none
  | _ => do
    let name ← decodeString "" b
    match name with
    | "minute" => .ok .minute
    | "hour" => .ok .hour
    | "day" => .ok .day
    | _ => .error ("bad time truncation function: " ++ quote name)

/-- `FilterType.UnmarshalJSON`. -/
def FilterType.unmarshalJSON (b : Json String) : Except String FilterType := do
  let name ← decodeString "" b
  match filterNameToType name with
  | some typ => .ok typ
  | none => .error (quote name ++ " is not a valid filter type")

/-- The fields of the struct `QueryAggregate.UnmarshalJSON` decodes into, which are those of
`QueryAggregate`. -/
def aggregateFields : List String := ["Type", "Column", "Name"]

def aggregateStructType : String :=
  "struct \x7b Type gumshoe.AggregateType; Column string; Name string \x7d"

/-- Decoding a member value into a field of that struct. -/
def setAggregateField : Nat → Json String → QueryAggregate → Except String QueryAggregate
  | 0, v, a => do
    let t ← AggregateType.unmarshalJSON quote v
    pure { a with type := t }
  | 1, v, a => do
    let c ← decodeString a.column v
    pure { a with column := c }
  | _, v, a => do
    let n ← decodeString a.name v
    pure { a with name := n }

/-- `QueryAggregate.UnmarshalJSON`: the fields decoded into a zero struct, and the name defaulting
to the column. -/
def QueryAggregate.unmarshalJSON (b : Json String) : Except String QueryAggregate := do
  let agg ← decodeStruct fold aggregateFields (setAggregateField quote) aggregateStructType
    ⟨.sum, "", ""⟩ b
  pure (if agg.name = "" then { agg with name := agg.column } else agg)

/-- `len(b) < 2`: of the texts of JSON values only a one-digit number is shorter than two
bytes. -/
def tooShort : Json String → Bool
  | .num s => s.utf8ByteSize < 2
  | _ => false

def groupingFields : List String := ["TimeTransform", "Column", "Name"]

def groupingStructType : String :=
  "struct \x7b TimeTransform gumshoe.TimeTruncationType \"json:\\\",omitempty\\\"\"; " ++
    "Column string; Name string \x7d"

/-- Decoding a member value into a field of the struct `QueryGrouping.UnmarshalJSON` decodes
into. -/
def setGroupingField : Nat → Json String → QueryGrouping → Except String QueryGrouping
  | 0, v, g => do
    let t ← TimeTruncationType.unmarshalJSON quote v
    pure { g with timeTransform := t }
  | 1, v, g => do
    let c ← decodeString g.column v
    pure { g with column := c }
  | _, v, g => do
    let n ← decodeString g.name v
    pure { g with name := n }

/-- The two branches of `QueryGrouping.UnmarshalJSON`: a bare string names the column (`b[0] ==
'"'`, and decoding a string into a string cannot fail); anything else is decoded as a struct. -/
def decodeGrouping (b : Json String) : Except String QueryGrouping :=
  match b with
  | .str s => .ok ⟨.none, s, ""⟩
  | _ => (decodeStruct fold groupingFields (setGroupingField quote) groupingStructType
      ⟨.none, "", ""⟩ b).mapError
      fun e => "invalid grouping: " ++ quote (raw b) ++ " (" ++ e ++ ")"

/-- `QueryGrouping.UnmarshalJSON`: the name defaults to the column. -/
def QueryGrouping.unmarshalJSON (b : Json String) : Except String QueryGrouping :=
  if tooShort b then .error ("invalid grouping: " ++ quote (raw b))
  else (decodeGrouping fold quote raw b).map fun g =>
    if g.name = "" then { g with name := g.column } else g

/-- Reading a number literal into an interface, as `encoding/json` does. -/
def parseNumber (s : String) : Except String F64 :=
  match parseFloat s with
  | some x => .ok x
  | none => .error ("json: cannot unmarshal number " ++ s ++ " into Go value of type float64")

def filterFields : List String := ["Type", "Column", "Value"]

/-- Decoding a member value into a field of a `QueryFilter`. -/
def setFilterField : Nat → Json String → QueryFilter → Except String QueryFilter
  | 0, v, f => do
    let t ← FilterType.unmarshalJSON quote v
    pure { f with type := t }
  | 1, v, f => do
    let c ← decodeString f.column v
    pure { f with column := c }
  | _, v, f => do
    let x ← decodeAny (parseNumber parseFloat) v
    pure { f with value := x }

/-- Decoding into a `QueryFilter` variable, which has no `UnmarshalJSON`: the members set its
fields in place. -/
def QueryFilter.decodeInto (f : QueryFilter) (b : Json String) : Except String QueryFilter :=
  decodeStruct fold filterFields (setFilterField quote parseFloat) "gumshoe.QueryFilter" f b

/-- The variable `new(Query)` while the decoder fills it: each slice with its backing array. -/
structure QueryVar where
  aggregates : Slice QueryAggregate
  groupings : Slice QueryGrouping
  filters : Slice QueryFilter

def queryFields : List String := ["Aggregates", "Groupings", "Filters"]

/-- Decoding a member value into a field of the query. The elements of aggregates and groupings
are overwritten by their `UnmarshalJSON`; filters are decoded into the elements already there. -/
def setQueryField : Nat → Json String → QueryVar → Except String QueryVar
  | 0, v, q => do
    let s ← decodeSlice (fun _ b => QueryAggregate.unmarshalJSON fold quote b) ⟨.sum, "", ""⟩
      "[]gumshoe.QueryAggregate" q.aggregates v
    pure { q with aggregates := s }
  | 1, v, q => do
    let s ← decodeSlice (fun _ b => QueryGrouping.unmarshalJSON fold quote raw b)
      ⟨.none, "", ""⟩ "[]gumshoe.QueryGrouping" q.groupings v
    pure { q with groupings := s }
  | _, v, q => do
    let s ← decodeSlice (QueryFilter.decodeInto fold quote parseFloat) ⟨.equal, "", .null⟩
      "[]gumshoe.QueryFilter" q.filters v
    pure { q with filters := s }

/-- `ParseJSONQuery`: decode into `new(Query)`. -/
def parseJSONQuery (j : Json String) : Except String Query := do
  let q ← decodeStruct fold queryFields (setQueryField fold quote raw parseFloat) "gumshoe.Query"
    ⟨⟨[], []⟩, ⟨[], []⟩, ⟨[], []⟩⟩ j
  pure ⟨q.aggregates.elems, q.groupings.elems, q.filters.elems⟩

end Unmarshal

/-! ## Encoding -/

section Marshal

-- `formatFloat` is the encoder's text of a finite `float64`, `fmtG` its `%v`
variable (fmtG : F64 → String) (formatFloat : F64 → String)

/-- `AggregateType.MarshalJSON`. -/
def AggregateType.marshalJSON : AggregateType → Json String
  | .sum => .str "sum"
  | .avg => .str "average"

/-- `TimeTruncationType.MarshalJSON`. -/
def TimeTruncationType.marshalJSON : TimeTruncationType → Json String
  | .none => .null
  | .minute => .str "minute"
  | .hour => .str "hour"
  | .day => .str "day"

/-- `FilterType.MarshalJSON`. -/
def FilterType.marshalJSON (t : FilterType) : Json String := .str (filterTypeToName t)

/-- `json.Marshal` of a `float64`, which refuses NaN and the infinities. -/
def encodeFloat (x : F64) : Except String String :=
  if x.isFinite then .ok (formatFloat x) else .error ("json: unsupported value: " ++ fmtG x)

def QueryAggregate.marshal (a : QueryAggregate) : Json String :=
  .obj [("Type", a.type.marshalJSON), ("Column", .str a.column), ("Name", .str a.name)]

/-- The time transform has `omitempty`: `TimeTruncationNone`, the zero value, is left out. -/
def QueryGrouping.marshal (g : QueryGrouping) : Json String :=
  .obj ((if g.timeTransform = .none then [] else [("TimeTransform", g.timeTransform.marshalJSON)])
    ++ [("Column", .str g.column), ("Name", .str g.name)])

def QueryFilter.marshal (f : QueryFilter) : Except String (Json String) := do
  let v ← traverse (encodeFloat fmtG formatFloat) f.value
  pure (.obj [("Type", f.type.marshalJSON), ("Column", .str f.column), ("Value", v)])

/-- `json.Marshal(query)`. Go writes a nil slice as `null` and an empty one as `[]`, which decode
alike; the model writes `[]`. -/
def marshalQuery (q : Query) : Except String (Json String) := do
  let filters ← q.filters.mapM (QueryFilter.marshal fmtG formatFloat)
  pure (.obj [("Aggregates", .arr (q.aggregates.map QueryAggregate.marshal)),
    ("Groupings", .arr (q.groupings.map QueryGrouping.marshal)), ("Filters", .arr filters)])

end Marshal

/-! ## Well-formed queries -/

section WF

variable (parseFloat : String → Option F64)

/-- A filter value as decoding into an interface leaves it: in normal form, with numbers read
from literals. -/
structure QueryFilter.WF (f : QueryFilter) : Prop where
  normal : toAny f.value = f.value
  parsed : All (fun x => ∃ s, parseFloat s = some x) f.value

/-- A query as `ParseJSONQuery` leaves it: a name is empty only with its column. -/
structure Query.WF (q : Query) : Prop where
  aggregates : ∀ a ∈ q.aggregates, a.name = "" → a.column = ""
  groupings : ∀ g ∈ q.groupings, g.name = "" → g.column = ""
  filters : ∀ f ∈ q.filters, f.WF parseFloat

/-- The same of the backing arrays, while the decoder fills the query. -/
structure QueryVar.WF (q : QueryVar) : Prop where
  aggregates : ∀ a ∈ q.aggregates.backing, a.name = "" → a.column = ""
  groupings : ∀ g ∈ q.groupings.backing, g.name = "" → g.column = ""
  filters : ∀ f ∈ q.filters.backing, f.WF parseFloat

end WF

/-! ## Decoding gives well-formed queries -/

section Decode

variable {fold : String → String → Bool} {quote : String → String}
  {raw : Json String → String} {parseFloat : String → Option F64}

/-- The name default leaves a name empty only with its column. -/
theorem name_default {column name : String} :
    (if name = "" then column else name) = "" → column = "" := by
  split <;> simp_all

theorem QueryAggregate.unmarshalJSON_wf {b : Json String} {a : QueryAggregate}
    (h : QueryAggregate.unmarshalJSON fold quote b = .ok a) : a.name = "" → a.column = "" := by
  unfold QueryAggregate.unmarshalJSON at h
  cases hd : decodeStruct fold aggregateFields (setAggregateField quote) aggregateStructType
    ⟨.sum, "", ""⟩ b with
  | error e => simp [hd, bind, Except.bind] at h
  | ok agg =>
    simp only [hd, bind, Except.bind, pure, Except.pure, Except.ok.injEq] at h
    subst h
    have := @name_default agg.column agg.name
    split <;> simp_all

theorem QueryGrouping.unmarshalJSON_wf {b : Json String} {g : QueryGrouping}
    (h : QueryGrouping.unmarshalJSON fold quote raw b = .ok g) : g.name = "" → g.column = "" := by
  unfold QueryGrouping.unmarshalJSON at h
  split at h
  · cases h
  · cases hd : decodeGrouping fold quote raw b with
    | error e => simp [hd, Except.map] at h
    | ok g₀ =>
      simp only [hd, Except.map, Except.ok.injEq] at h
      subst h
      have := @name_default g₀.column g₀.name
      split <;> simp_all

theorem setFilterField_wf {i : Nat} {v : Json String} {f f' : QueryFilter}
    (hf : f.WF parseFloat) (h : setFilterField quote parseFloat i v f = .ok f') :
    f'.WF parseFloat := by
  rcases i with _ | _ | i
  · cases ht : FilterType.unmarshalJSON quote v with
    | error e => simp [setFilterField, ht, bind, Except.bind] at h
    | ok t =>
      simp only [setFilterField, ht, bind, Except.bind, pure, Except.pure, Except.ok.injEq] at h
      subst h
      exact ⟨hf.normal, hf.parsed⟩
  · cases hc : decodeString f.column v with
    | error e => simp [setFilterField, hc, bind, Except.bind] at h
    | ok c =>
      simp only [setFilterField, hc, bind, Except.bind, pure, Except.pure, Except.ok.injEq] at h
      subst h
      exact ⟨hf.normal, hf.parsed⟩
  · cases hx : decodeAny (parseNumber parseFloat) v with
    | error e => simp [setFilterField, hx, bind, Except.bind] at h
    | ok x =>
      simp only [setFilterField, hx, bind, Except.bind, pure, Except.pure, Except.ok.injEq] at h
      subst h
      -- the numbers of the value are what `parseNumber` read
      have hnum : ∀ s y, parseNumber parseFloat s = .ok y → ∃ s, parseFloat s = some y := by
        intro s y hs
        unfold parseNumber at hs
        split at hs
        · cases hs
          exact ⟨s, ‹_›⟩
        · cases hs
      obtain ⟨hn, hp⟩ := decodeAny_normal hnum hx
      exact ⟨hn, hp⟩

theorem QueryFilter.decodeInto_wf {b : QueryFilter} {v : Json String} {f : QueryFilter}
    (hb : b.WF parseFloat) (h : QueryFilter.decodeInto fold quote parseFloat b v = .ok f) :
    f.WF parseFloat :=
  decodeStruct_inv fold filterFields (fun _ _ _ _ => setFilterField_wf) hb h

theorem setQueryField_wf {i : Nat} {v : Json String} {q q' : QueryVar}
    (hq : q.WF parseFloat) (h : setQueryField fold quote raw parseFloat i v q = .ok q') :
    q'.WF parseFloat := by
  rcases i with _ | _ | i
  · cases hs : decodeSlice (fun _ b => QueryAggregate.unmarshalJSON fold quote b)
      ⟨.sum, "", ""⟩ "[]gumshoe.QueryAggregate" q.aggregates v with
    | error e => simp [setQueryField, hs, bind, Except.bind] at h
    | ok s =>
      simp only [setQueryField, hs, bind, Except.bind, pure, Except.pure, Except.ok.injEq] at h
      subst h
      exact ⟨decodeSlice_inv (fun _ _ _ _ ha => QueryAggregate.unmarshalJSON_wf ha)
        (fun _ => rfl) hq.aggregates hs, hq.groupings, hq.filters⟩
  · cases hs : decodeSlice (fun _ b => QueryGrouping.unmarshalJSON fold quote raw b)
      ⟨.none, "", ""⟩ "[]gumshoe.QueryGrouping" q.groupings v with
    | error e => simp [setQueryField, hs, bind, Except.bind] at h
    | ok s =>
      simp only [setQueryField, hs, bind, Except.bind, pure, Except.pure, Except.ok.injEq] at h
      subst h
      exact ⟨hq.aggregates, decodeSlice_inv (fun _ _ _ _ hg => QueryGrouping.unmarshalJSON_wf hg)
        (fun _ => rfl) hq.groupings hs, hq.filters⟩
  · cases hs : decodeSlice (QueryFilter.decodeInto fold quote parseFloat) ⟨.equal, "", .null⟩
      "[]gumshoe.QueryFilter" q.filters v with
    | error e => simp [setQueryField, hs, bind, Except.bind] at h
    | ok s =>
      simp only [setQueryField, hs, bind, Except.bind, pure, Except.pure, Except.ok.injEq] at h
      subst h
      have hzero : QueryFilter.WF parseFloat ⟨.equal, "", .null⟩ := ⟨rfl, trivial⟩
      exact ⟨hq.aggregates, hq.groupings, decodeSlice_inv
        (fun _ _ _ hb hf => QueryFilter.decodeInto_wf hb hf) hzero hq.filters hs⟩

/-- Every query `ParseJSONQuery` returns is well formed. -/
theorem parseJSONQuery_wf {j : Json String} {q : Query}
    (h : parseJSONQuery fold quote raw parseFloat j = .ok q) : q.WF parseFloat := by
  unfold parseJSONQuery at h
  cases hd : decodeStruct fold queryFields (setQueryField fold quote raw parseFloat)
    "gumshoe.Query" ⟨⟨[], []⟩, ⟨[], []⟩, ⟨[], []⟩⟩ j with
  | error e => simp [hd, bind, Except.bind] at h
  | ok qv =>
    simp only [hd, bind, Except.bind, pure, Except.pure, Except.ok.injEq] at h
    subst h
    have hzero : QueryVar.WF parseFloat ⟨⟨[], []⟩, ⟨[], []⟩, ⟨[], []⟩⟩ :=
      ⟨by simp [Slice.backing], by simp [Slice.backing], by simp [Slice.backing]⟩
    have hqv := decodeStruct_inv fold queryFields (fun _ _ _ _ => setQueryField_wf) hzero hd
    exact ⟨fun a ha => hqv.aggregates a (List.mem_append_left _ ha),
      fun g hg => hqv.groupings g (List.mem_append_left _ hg),
      fun f hf => hqv.filters f (List.mem_append_left _ hf)⟩

end Decode

/-! ## Well-formed queries decode from their encoding -/

section RoundTrip

variable {fold : String → String → Bool} {quote : String → String}
  {raw : Json String → String} {parseFloat : String → Option F64}
  {fmtG formatFloat : F64 → String}

theorem AggregateType.unmarshalJSON_marshalJSON (t : AggregateType) :
    AggregateType.unmarshalJSON quote t.marshalJSON = .ok t := by
  cases t <;> rfl

theorem TimeTruncationType.unmarshalJSON_marshalJSON (t : TimeTruncationType) :
    TimeTruncationType.unmarshalJSON quote t.marshalJSON = .ok t := by
  cases t <;> rfl

theorem FilterType.unmarshalJSON_marshalJSON (t : FilterType) :
    FilterType.unmarshalJSON quote t.marshalJSON = .ok t := by
  simp [FilterType.unmarshalJSON, FilterType.marshalJSON, decodeString,
    filterNameToType_filterTypeToName, bind, Except.bind]

theorem QueryAggregate.unmarshalJSON_marshal {a : QueryAggregate}
    (ha : a.name = "" → a.column = "") :
    QueryAggregate.unmarshalJSON fold quote a.marshal = .ok a := by
  have h0 : aggregateFields.idxOf? "Type" = some 0 := by decide
  have h1 : aggregateFields.idxOf? "Column" = some 1 := by decide
  have h2 : aggregateFields.idxOf? "Name" = some 2 := by decide
  -- the members set the three fields in order, whatever `fold` is
  have hfields : decodeStruct fold aggregateFields (setAggregateField quote) aggregateStructType
      ⟨.sum, "", ""⟩ a.marshal = .ok ⟨a.type, a.column, a.name⟩ := by
    simp [QueryAggregate.marshal, decodeStruct, decodeFields_cons_exact _ _ _ h0,
      decodeFields_cons_exact _ _ _ h1, decodeFields_cons_exact _ _ _ h2, setAggregateField,
      AggregateType.unmarshalJSON_marshalJSON, decodeString, decodeFields.eq_1, bind, Except.bind,
      pure, Except.pure]
  rw [QueryAggregate.unmarshalJSON, hfields]
  -- the name default changes nothing: an empty name comes with an empty column
  obtain ⟨t, c, n⟩ := a
  by_cases hn : n = ""
  · have hc : c = "" := ha hn
    simp [bind, Except.bind, pure, Except.pure, hn, hc]
  · simp [bind, Except.bind, pure, Except.pure, hn]

theorem QueryGrouping.unmarshalJSON_marshal {g : QueryGrouping}
    (hg : g.name = "" → g.column = "") :
    QueryGrouping.unmarshalJSON fold quote raw g.marshal = .ok g := by
  have h0 : groupingFields.idxOf? "TimeTransform" = some 0 := by decide
  have h1 : groupingFields.idxOf? "Column" = some 1 := by decide
  have h2 : groupingFields.idxOf? "Name" = some 2 := by decide
  obtain ⟨t, c, n⟩ := g
  -- an object: decoded as a struct, `TimeTruncationNone` from the zero value when left out
  have hdecode : decodeGrouping fold quote raw (QueryGrouping.marshal ⟨t, c, n⟩) =
      .ok ⟨t, c, n⟩ := by
    cases t <;>
      simp [decodeGrouping, QueryGrouping.marshal, decodeStruct, decodeFields_cons_exact _ _ _ h0,
        decodeFields_cons_exact _ _ _ h1, decodeFields_cons_exact _ _ _ h2, setGroupingField,
        TimeTruncationType.unmarshalJSON_marshalJSON, decodeString, decodeFields.eq_1, bind,
        Except.bind, pure, Except.pure, Except.mapError]
  have hlong : tooShort (QueryGrouping.marshal ⟨t, c, n⟩) = false := rfl
  rw [QueryGrouping.unmarshalJSON, hlong, if_neg Bool.false_ne_true, hdecode]
  by_cases hn : n = ""
  · have hc : c = "" := hg hn
    simp [Except.map, hn, hc]
  · simp [Except.map, hn]

section Floats

-- the floats the decoder reads are finite, and the encoder writes each as text read back to it
variable (hparse : ∀ s x, parseFloat s = some x → x.isFinite)
  (hformat : ∀ s x, parseFloat s = some x → parseFloat (formatFloat x) = some x)
include hparse hformat

/-- A number the decoder read is written as a literal it reads back. -/
theorem encodeFloat_parseNumber {x : F64} (hx : ∃ s, parseFloat s = some x) :
    ∃ t, encodeFloat fmtG formatFloat x = .ok t ∧ parseNumber parseFloat t = .ok x := by
  obtain ⟨s, hs⟩ := hx
  refine ⟨formatFloat x, by simp [encodeFloat, hparse s x hs], ?_⟩
  simp [parseNumber, hformat s x hs]

/-- A well-formed filter is encoded, and its encoding decodes back into any filter. -/
theorem QueryFilter.marshal_decodeInto {f : QueryFilter} (hf : f.WF parseFloat) :
    ∃ t, QueryFilter.marshal fmtG formatFloat f = .ok t ∧
      ∀ b, QueryFilter.decodeInto fold quote parseFloat b t = .ok f := by
  have henc : ∀ x, (∃ s, parseFloat s = some x) →
      ∃ t, encodeFloat fmtG formatFloat x = .ok t ∧ parseNumber parseFloat t = .ok x :=
    fun _ hx => encodeFloat_parseNumber hparse hformat hx
  obtain ⟨v, hv, hdv⟩ := decodeAny_traverse hf.normal (all_imp henc hf.parsed)
  have h0 : filterFields.idxOf? "Type" = some 0 := by decide
  have h1 : filterFields.idxOf? "Column" = some 1 := by decide
  have h2 : filterFields.idxOf? "Value" = some 2 := by decide
  refine ⟨.obj [("Type", f.type.marshalJSON), ("Column", .str f.column), ("Value", v)],
    by simp [QueryFilter.marshal, hv, bind, Except.bind, pure, Except.pure], fun b => ?_⟩
  -- all three fields are set, so nothing of `b` is left
  simp [QueryFilter.decodeInto, decodeStruct, decodeFields_cons_exact _ _ _ h0,
    decodeFields_cons_exact _ _ _ h1, decodeFields_cons_exact _ _ _ h2, setFilterField,
    FilterType.unmarshalJSON_marshalJSON, decodeString, hdv, decodeFields.eq_1, bind, Except.bind,
    pure, Except.pure]

/-- A well-formed query, written by `json.Marshal` and parsed, comes back unchanged. -/
theorem parseJSONQuery_marshalQuery_of_wf {q : Query} (hq : q.WF parseFloat) :
    (marshalQuery fmtG formatFloat q >>= parseJSONQuery fold quote raw parseFloat) = .ok q := by
  have hfilter : ∀ f ∈ q.filters, ∃ t, QueryFilter.marshal fmtG formatFloat f = .ok t ∧
      ∀ b, QueryFilter.decodeInto fold quote parseFloat b t = .ok f :=
    fun f hf => QueryFilter.marshal_decodeInto hparse hformat (hq.filters f hf)
  obtain ⟨filters, hfs, hfs₂⟩ := mapM_forall₂ hfilter
  -- each slice decodes from its encoding into the empty slice of `new(Query)`
  have haggs : List.Forall₂ (fun a t => ∀ b : QueryAggregate,
      QueryAggregate.unmarshalJSON fold quote t = .ok a) q.aggregates
      (q.aggregates.map QueryAggregate.marshal) := by
    rw [List.forall₂_map_right_iff]
    exact List.forall₂_same.mpr fun a ha _ =>
      QueryAggregate.unmarshalJSON_marshal (hq.aggregates a ha)
  have hgroups : List.Forall₂ (fun g t => ∀ b : QueryGrouping,
      QueryGrouping.unmarshalJSON fold quote raw t = .ok g) q.groupings
      (q.groupings.map QueryGrouping.marshal) := by
    rw [List.forall₂_map_right_iff]
    exact List.forall₂_same.mpr fun g hg _ =>
      QueryGrouping.unmarshalJSON_marshal (hq.groupings g hg)
  obtain ⟨sa, hsa⟩ := @decodeSlice_arr String QueryAggregate
    (fun _ b => QueryAggregate.unmarshalJSON fold quote b) ⟨.sum, "", ""⟩
    "[]gumshoe.QueryAggregate" _ _ haggs ⟨[], []⟩
  obtain ⟨sg, hsg⟩ := @decodeSlice_arr String QueryGrouping
    (fun _ b => QueryGrouping.unmarshalJSON fold quote raw b) ⟨.none, "", ""⟩
    "[]gumshoe.QueryGrouping" _ _ hgroups ⟨[], []⟩
  obtain ⟨sf, hsf⟩ := @decodeSlice_arr String QueryFilter
    (QueryFilter.decodeInto fold quote parseFloat) ⟨.equal, "", .null⟩
    "[]gumshoe.QueryFilter" _ _ hfs₂ ⟨[], []⟩
  have h0 : queryFields.idxOf? "Aggregates" = some 0 := by decide
  have h1 : queryFields.idxOf? "Groupings" = some 1 := by decide
  have h2 : queryFields.idxOf? "Filters" = some 2 := by decide
  simp [marshalQuery, hfs, parseJSONQuery, decodeStruct, decodeFields_cons_exact _ _ _ h0,
    decodeFields_cons_exact _ _ _ h1, decodeFields_cons_exact _ _ _ h2, setQueryField, hsa, hsg,
    hsf, decodeFields.eq_1, bind, Except.bind, pure, Except.pure]

/-- Whatever `ParseJSONQuery` returns, written by `json.Marshal` and parsed again, comes back
unchanged. -/
theorem parseJSONQuery_marshalQuery {j : Json String} {q : Query}
    (h : parseJSONQuery fold quote raw parseFloat j = .ok q) :
    (marshalQuery fmtG formatFloat q >>= parseJSONQuery fold quote raw parseFloat) = .ok q :=
  parseJSONQuery_marshalQuery_of_wf hparse hformat (parseJSONQuery_wf h)

end Floats

end RoundTrip

/-- `TestParseQuery`'s query, with its member names in lower case. -/
def testQueryJson : Json String :=
  .obj [("aggregates", .arr [.obj [("type", .str "sum"), ("name", .str "metric1"),
      ("column", .str "metric1")]]),
    ("groupings", .arr [.obj [("column", .str "dim1"), ("name", .str "grouping-name")]]),
    ("filters", .arr [.obj [("type", .str "!="), ("column", .str "at"), ("value", .num "1")]])]

/-- Matching names without regard to the case of ASCII letters, which is what `encoding/json`'s
folding does on the names of this test. -/
def asciiFold (field key : String) : Bool :=
  field.toList.map Char.toLower == key.toList.map Char.toLower

/-- The `float64` 1. -/
def oneF64 : F64 := ⟨0x3FF0000000000000⟩

/-- A float reader that knows the one literal of the test. -/
def readOne (s : String) : Option F64 := if s = "1" then some oneF64 else none

/-- What `TestParseQuery` checks of the parsed query, in full. -/
def testQuery : Query :=
  ⟨[⟨.sum, "metric1", "metric1"⟩], [⟨.none, "dim1", "grouping-name"⟩],
    [⟨.notEqual, "at", .num oneF64⟩]⟩

/-- The query of `TestParseQuery` survives the router's re-encoding. -/
theorem testQuery_roundTrip :
    parseJSONQuery asciiFold id (fun _ => "") readOne testQueryJson = .ok testQuery ∧
      (marshalQuery (fun _ => "1") (fun _ => "1") testQuery >>=
        parseJSONQuery asciiFold id (fun _ => "") readOne) = .ok testQuery := by
  have hparse : ∀ s x, readOne s = some x → x.isFinite := by
    intro s x hs
    unfold readOne at hs
    split at hs
    · cases hs
      decide
    · cases hs
  have hformat : ∀ s x, readOne s = some x → readOne "1" = some x := by
    intro s x hs
    unfold readOne at hs
    split at hs
    · exact hs
    · cases hs
  have hdecode : parseJSONQuery asciiFold id (fun _ => "") readOne testQueryJson =
      .ok testQuery := by
    rfl
  exact ⟨hdecode, parseJSONQuery_marshalQuery hparse hformat hdecode⟩

end Gumshoe
