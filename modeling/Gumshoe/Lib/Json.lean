import Gumshoe.Lib.SortedMap

/-!
# JSON values and decoding them

A JSON value as a decoder reads it, its numbers of type `N` (their literal texts, or the floats
they are read as). The rules of a reflective decoder such as Go's `encoding/json`, on values
rather than on text:

* `toAny` and `decodeAny` — decoding into an empty interface: numbers are read by a given
  function (`traverse`); arrays keep their order; an object becomes a map, each key once (the
  last member wins) and the keys in increasing order, which is also the order in which an encoder
  writes a map. Decoding what it gives changes nothing (`toAny_toAny`), and a value in that
  normal form decodes from its encoding where its numbers do (`decodeAny_traverse`).
* `fieldFor`, `decodeFields` and `decodeStruct` — decoding an object into a record: a member sets
  the field of its name, else the first field whose name `fold` (a case-insensitive match) pairs
  with it; other members are skipped, a later member overrides an earlier one, and `null` leaves
  the record as it is. `decodeFields_cons_exact` takes a member with a field's exact name;
  `decodeFields_inv` carries an invariant of the record through any members.
* `decodeString`, and `decodeSlice` over `Slice` — a string variable, and a slice variable whose
  backing array keeps the elements past its length, into which a later array is decoded.

Text, escapes and the scanning of numbers are below this level.
-/

/-- A JSON value, its numbers of type `N`. -/
inductive Json (N : Type) where
  | null
  | bool (b : Bool)
  | num (n : N)
  | str (s : String)
  | arr (vs : List (Json N))
  | obj (kvs : List (String × Json N))

namespace Json

variable {N : Type}

/-- The kind of a value, as a decoder's type error names it. -/
def kind : Json N → String
  | .null => "null"
  | .bool _ => "bool"
  | .num _ => "number"
  | .str _ => "string"
  | .arr _ => "array"
  | .obj _ => "object"

/-- The error of decoding a value of the wrong kind into a variable of the type `goType`. -/
def typeError (j : Json N) (goType : String) : String :=
  "json: cannot unmarshal " ++ j.kind ++ " into Go value of type " ++ goType

/-! ## Decoding into an empty interface -/

mutual

/-- Decoding into an empty interface. -/
def toAny : Json N → Json N
  | .arr vs => .arr (toAnyList vs)
  | .obj kvs => .obj (toAnyMap [] kvs)
  | j => j

/-- The elements of an array, each decoded. -/
def toAnyList : List (Json N) → List (Json N)
  | [] => []
  | v :: vs => toAny v :: toAnyList vs

/-- The members of an object stored into the map `m`, each value decoded. -/
def toAnyMap (m : List (String × Json N)) : List (String × Json N) → List (String × Json N)
  | [] => m
  | (k, v) :: kvs => toAnyMap (SortedMap.insert k (toAny v) m) kvs

end

/-- The map keeps its keys sorted. -/
theorem sorted_toAnyMap : ∀ {m : List (String × Json N)} (kvs : List (String × Json N)),
    SortedMap.Sorted m → SortedMap.Sorted (toAnyMap m kvs)
  | _, [], hm => hm
  | _, (k, v) :: kvs, hm => sorted_toAnyMap kvs (SortedMap.sorted_insert k (toAny v) hm)

/-- Storing members that are already sorted, with decoded values, after the keys of `m` appends
them. -/
theorem toAnyMap_of_sorted : ∀ {m : List (String × Json N)} (l : List (String × Json N)),
    SortedMap.Sorted (m ++ l) → (∀ p ∈ l, toAny p.2 = p.2) → toAnyMap m l = m ++ l
  | m, [], _, _ => by simp [toAnyMap]
  | m, (k, v) :: l, hs, hv => by
    -- the keys of `m` are below `k`
    have hbelow : ∀ p ∈ m, compare p.1 k = .lt := fun p hp =>
      (List.pairwise_append.mp hs).2.2 p hp (k, v) List.mem_cons_self
    have hv₀ : toAny v = v := hv (k, v) List.mem_cons_self
    have hs' : SortedMap.Sorted ((m ++ [(k, v)]) ++ l) := by simpa using hs
    rw [toAnyMap, hv₀, SortedMap.insert_eq_append _ hbelow,
      toAnyMap_of_sorted l hs' fun p hp => hv p (List.mem_cons_of_mem _ hp)]
    simp

mutual

/-- Decoding a decoded value again changes nothing. -/
theorem toAny_toAny : ∀ j : Json N, toAny (toAny j) = toAny j
  | .null => rfl
  | .bool _ => rfl
  | .num _ => rfl
  | .str _ => rfl
  | .arr vs => by rw [toAny, toAny, toAnyList_toAnyList vs]
  | .obj kvs => by
    rw [toAny, toAny]
    congr 1
    exact @toAnyMap_of_sorted N [] _ (sorted_toAnyMap kvs SortedMap.sorted_nil)
      (toAnyMap_toAny [] kvs fun _ h => (List.not_mem_nil h).elim)

theorem toAnyList_toAnyList : ∀ vs : List (Json N), toAnyList (toAnyList vs) = toAnyList vs
  | [] => rfl
  | v :: vs => by rw [toAnyList, toAnyList, toAny_toAny v, toAnyList_toAnyList vs]

/-- The values of the map are decoded values. -/
theorem toAnyMap_toAny : ∀ (m kvs : List (String × Json N)), (∀ p ∈ m, toAny p.2 = p.2) →
    ∀ p ∈ toAnyMap m kvs, toAny p.2 = p.2
  | _, [], hm => hm
  | m, (k, v) :: kvs, hm => by
    refine toAnyMap_toAny _ kvs fun p hp => ?_
    rcases SortedMap.mem_insert hp with rfl | hp
    · exact toAny_toAny v
    · exact hm p hp

end

/-! ## Numbers -/

section Numbers

variable {M ε : Type}

mutual

/-- Converting every number of a value by `f`, in the order the text has them; the first
number `f` refuses is the error. -/
def traverse (f : N → Except ε M) : Json N → Except ε (Json M)
  | .null => .ok .null
  | .bool b => .ok (.bool b)
  | .num n => .num <$> f n
  | .str s => .ok (.str s)
  | .arr vs => .arr <$> traverseList f vs
  | .obj kvs => .obj <$> traverseMembers f kvs

def traverseList (f : N → Except ε M) : List (Json N) → Except ε (List (Json M))
  | [] => .ok []
  | v :: vs => do
    let v' ← traverse f v
    let vs' ← traverseList f vs
    pure (v' :: vs')

def traverseMembers (f : N → Except ε M) :
    List (String × Json N) → Except ε (List (String × Json M))
  | [] => .ok []
  | (k, v) :: kvs => do
    let v' ← traverse f v
    let kvs' ← traverseMembers f kvs
    pure ((k, v') :: kvs')

end

mutual

/-- Every number of a value satisfies `P`. -/
def All (P : N → Prop) : Json N → Prop
  | .num n => P n
  | .arr vs => AllList P vs
  | .obj kvs => AllMembers P kvs
  | _ => True

def AllList (P : N → Prop) : List (Json N) → Prop
  | [] => True
  | v :: vs => All P v ∧ AllList P vs

def AllMembers (P : N → Prop) : List (String × Json N) → Prop
  | [] => True
  | (_, v) :: kvs => All P v ∧ AllMembers P kvs

end

mutual

theorem all_imp {P Q : N → Prop} (hPQ : ∀ n, P n → Q n) :
    ∀ {j : Json N}, All P j → All Q j
  | .null, _ | .bool _, _ | .str _, _ => trivial
  | .num n, h => hPQ n h
  | .arr _, h => allList_imp hPQ h
  | .obj _, h => allMembers_imp hPQ h

theorem allList_imp {P Q : N → Prop} (hPQ : ∀ n, P n → Q n) :
    ∀ {vs : List (Json N)}, AllList P vs → AllList Q vs
  | [], _ => trivial
  | _ :: _, ⟨hv, hvs⟩ => ⟨all_imp hPQ hv, allList_imp hPQ hvs⟩

theorem allMembers_imp {P Q : N → Prop} (hPQ : ∀ n, P n → Q n) :
    ∀ {kvs : List (String × Json N)}, AllMembers P kvs → AllMembers Q kvs
  | [], _ => trivial
  | (_, _) :: _, ⟨hv, hkvs⟩ => ⟨all_imp hPQ hv, allMembers_imp hPQ hkvs⟩

end

theorem allMembers_iff {P : N → Prop} :
    ∀ {kvs : List (String × Json N)}, AllMembers P kvs ↔ ∀ p ∈ kvs, All P p.2
  | [] => by simp [AllMembers]
  | (k, v) :: kvs => by simp [AllMembers, allMembers_iff]

/-- Storing members whose numbers satisfy `P` into a map whose numbers do keeps `P`. -/
theorem allMembers_toAnyMap {P : N → Prop} :
    ∀ {m : List (String × Json N)} (kvs : List (String × Json N)),
    (∀ p ∈ kvs, All P (toAny p.2)) → AllMembers P m → AllMembers P (toAnyMap m kvs)
  | _, [], _, hm => hm
  | m, (k, v) :: kvs, hkvs, hm => by
    refine allMembers_toAnyMap kvs (fun p hp => hkvs p (List.mem_cons_of_mem _ hp)) ?_
    rw [allMembers_iff] at hm ⊢
    intro p hp
    rcases SortedMap.mem_insert hp with rfl | hp
    · exact hkvs (k, v) List.mem_cons_self
    · exact hm p hp

mutual

/-- Decoding into an empty interface keeps the numbers. -/
theorem all_toAny {P : N → Prop} : ∀ {j : Json N}, All P j → All P (toAny j)
  | .null, h => h
  | .bool _, h => h
  | .num _, h => h
  | .str _, h => h
  | .arr vs, h => by
    rw [toAny, All]
    exact allList_toAnyList h
  | .obj kvs, h => by
    rw [toAny, All]
    exact allMembers_toAnyMap kvs (forall_all_toAny h) (by simp [AllMembers])

theorem allList_toAnyList {P : N → Prop} : ∀ {vs : List (Json N)}, AllList P vs →
    AllList P (toAnyList vs)
  | [], h => h
  | _ :: _, ⟨hv, hvs⟩ => ⟨all_toAny hv, allList_toAnyList hvs⟩

theorem forall_all_toAny {P : N → Prop} :
    ∀ {kvs : List (String × Json N)}, AllMembers P kvs → ∀ p ∈ kvs, All P (toAny p.2)
  | [], _ => fun _ hp => (List.not_mem_nil hp).elim
  | (_, _) :: _, ⟨hv, hkvs⟩ => fun p hp => by
    rcases List.mem_cons.mp hp with rfl | hp
    · exact all_toAny hv
    · exact forall_all_toAny hkvs p hp

end

section Traverse

variable {f : N → Except ε M} {P : M → Prop}

mutual

/-- What `f` gives satisfies `P`, so every number of a converted value does. -/
theorem all_traverse (hf : ∀ n m, f n = .ok m → P m) :
    ∀ {j : Json N} {v : Json M}, traverse f j = .ok v → All P v
  | .null, v, h | .bool _, v, h | .str _, v, h => by
    simp only [traverse, Except.ok.injEq] at h
    subst h
    trivial
  | .num n, v, h => by
    cases hn : f n with
    | error e => simp [traverse, hn] at h
    | ok m =>
      simp only [traverse, hn, Functor.map, Except.map, Except.ok.injEq] at h
      subst h
      exact hf n m hn
  | .arr vs, v, h => by
    cases hvs : traverseList f vs with
    | error e => simp [traverse, hvs] at h
    | ok vs' =>
      simp only [traverse, hvs, Functor.map, Except.map, Except.ok.injEq] at h
      subst h
      exact allList_traverseList hf hvs
  | .obj kvs, v, h => by
    cases hkvs : traverseMembers f kvs with
    | error e => simp [traverse, hkvs] at h
    | ok kvs' =>
      simp only [traverse, hkvs, Functor.map, Except.map, Except.ok.injEq] at h
      subst h
      exact allMembers_traverseMembers hf hkvs

theorem allList_traverseList (hf : ∀ n m, f n = .ok m → P m) :
    ∀ {vs : List (Json N)} {vs' : List (Json M)}, traverseList f vs = .ok vs' → AllList P vs'
  | [], vs', h => by
    simp only [traverseList, Except.ok.injEq] at h
    subst h
    trivial
  | v :: vs, vs', h => by
    cases hv : traverse f v with
    | error e => simp [traverseList, hv, bind, Except.bind] at h
    | ok v' =>
      cases hvs : traverseList f vs with
      | error e => simp [traverseList, hv, hvs, bind, Except.bind] at h
      | ok vs'' =>
        simp only [traverseList, hv, hvs, bind, Except.bind, pure, Except.pure,
          Except.ok.injEq] at h
        subst h
        exact ⟨all_traverse hf hv, allList_traverseList hf hvs⟩

theorem allMembers_traverseMembers (hf : ∀ n m, f n = .ok m → P m) :
    ∀ {kvs : List (String × Json N)} {kvs' : List (String × Json M)},
    traverseMembers f kvs = .ok kvs' → AllMembers P kvs'
  | [], kvs', h => by
    simp only [traverseMembers, Except.ok.injEq] at h
    subst h
    trivial
  | (k, v) :: kvs, kvs', h => by
    cases hv : traverse f v with
    | error e => simp [traverseMembers, hv, bind, Except.bind] at h
    | ok v' =>
      cases hkvs : traverseMembers f kvs with
      | error e => simp [traverseMembers, hv, hkvs, bind, Except.bind] at h
      | ok kvs'' =>
        simp only [traverseMembers, hv, hkvs, bind, Except.bind, pure, Except.pure,
          Except.ok.injEq] at h
        subst h
        exact ⟨all_traverse hf hv, allMembers_traverseMembers hf hkvs⟩

end

variable {g : M → Except ε N}

mutual

/-- Where `g` writes every number of `v` as something `f` reads back, converting `v` by `g` and
back by `f` gives `v`. -/
theorem traverse_of_all :
    ∀ {v : Json M}, All (fun m => ∃ n, g m = .ok n ∧ f n = .ok m) v →
    ∃ t, traverse g v = .ok t ∧ traverse f t = .ok v
  | .null, _ => ⟨.null, rfl, rfl⟩
  | .bool b, _ => ⟨.bool b, rfl, rfl⟩
  | .str s, _ => ⟨.str s, rfl, rfl⟩
  | .num m, ⟨n, hg, hf⟩ => ⟨.num n, by simp [traverse, hg], by simp [traverse, hf]⟩
  | .arr vs, h => by
    obtain ⟨ts, hg, hf⟩ := traverseList_of_all h
    exact ⟨.arr ts, by simp [traverse, hg], by simp [traverse, hf]⟩
  | .obj kvs, h => by
    obtain ⟨ts, hg, hf⟩ := traverseMembers_of_all h
    exact ⟨.obj ts, by simp [traverse, hg], by simp [traverse, hf]⟩

theorem traverseList_of_all :
    ∀ {vs : List (Json M)}, AllList (fun m => ∃ n, g m = .ok n ∧ f n = .ok m) vs →
    ∃ ts, traverseList g vs = .ok ts ∧ traverseList f ts = .ok vs
  | [], _ => ⟨[], rfl, rfl⟩
  | _ :: _, ⟨hv, hvs⟩ => by
    obtain ⟨t, hg, hf⟩ := traverse_of_all hv
    obtain ⟨ts, hgs, hfs⟩ := traverseList_of_all hvs
    exact ⟨t :: ts, by simp [traverseList, hg, hgs, bind, Except.bind, pure, Except.pure],
      by simp [traverseList, hf, hfs, bind, Except.bind, pure, Except.pure]⟩

theorem traverseMembers_of_all :
    ∀ {kvs : List (String × Json M)},
    AllMembers (fun m => ∃ n, g m = .ok n ∧ f n = .ok m) kvs →
    ∃ ts, traverseMembers g kvs = .ok ts ∧ traverseMembers f ts = .ok kvs
  | [], _ => ⟨[], rfl, rfl⟩
  | (k, _) :: _, ⟨hv, hkvs⟩ => by
    obtain ⟨t, hg, hf⟩ := traverse_of_all hv
    obtain ⟨ts, hgs, hfs⟩ := traverseMembers_of_all hkvs
    exact ⟨(k, t) :: ts, by simp [traverseMembers, hg, hgs, bind, Except.bind, pure, Except.pure],
      by simp [traverseMembers, hf, hfs, bind, Except.bind, pure, Except.pure]⟩

end

end Traverse

/-- Decoding into an empty interface, the numbers read by `num`. -/
def decodeAny (num : N → Except ε M) (j : Json N) : Except ε (Json M) :=
  toAny <$> traverse num j

theorem decodeAny_eq_ok {num : N → Except ε M} {j : Json N} {v : Json M} :
    decodeAny num j = .ok v ↔ ∃ w, traverse num j = .ok w ∧ toAny w = v := by
  unfold decodeAny
  cases traverse num j <;> simp [Functor.map, Except.map]

/-- A decoded value is in normal form, and its numbers are what `num` gives. -/
theorem decodeAny_normal {num : N → Except ε M} {P : M → Prop}
    (hnum : ∀ n m, num n = .ok m → P m)
    {j : Json N} {v : Json M} (h : decodeAny num j = .ok v) : toAny v = v ∧ All P v := by
  obtain ⟨w, hw, rfl⟩ := decodeAny_eq_ok.mp h
  exact ⟨toAny_toAny w, all_toAny (all_traverse hnum hw)⟩

/-- A value in normal form, its numbers written by `g` as what `num` reads back, decodes from
what `g` writes. -/
theorem decodeAny_traverse {num : N → Except ε M} {g : M → Except ε N} {v : Json M}
    (hv : toAny v = v) (hnum : All (fun m => ∃ n, g m = .ok n ∧ num n = .ok m) v) :
    ∃ t, traverse g v = .ok t ∧ decodeAny num t = .ok v := by
  obtain ⟨t, hg, hf⟩ := traverse_of_all hnum
  exact ⟨t, hg, decodeAny_eq_ok.mpr ⟨v, hf, hv⟩⟩

end Numbers

/-! ## Decoding into records -/

/-- Decoding into a string variable holding `old`: `null` leaves it. -/
def decodeString (old : String) : Json N → Except String String
  | .str s => .ok s
  | .null => .ok old
  | j => .error (typeError j "string")

section Records

variable {R : Type} (fold : String → String → Bool) (fields : List String)

/-- The field a member named `key` sets: the field of that name, else the first whose name
`fold` matches it. -/
def fieldFor (key : String) : Option Nat :=
  (fields.idxOf? key).or (fields.findIdx? (fold · key))

variable (set : Nat → Json N → R → Except String R)

/-- Decoding the members of an object into the record `r`: a member sets the field `fieldFor`
gives it, by `set`, and a member that no field matches is skipped. -/
def decodeFields : R → List (String × Json N) → Except String R
  | r, [] => .ok r
  | r, (k, v) :: kvs =>
    match fieldFor fold fields k with
    | some i => (set i v r).bind (decodeFields · kvs)
    | none => decodeFields r kvs

/-- Decoding into a struct variable holding `r`: `null` leaves it, an object sets its fields,
and any other value is refused. -/
def decodeStruct (goType : String) (r : R) : Json N → Except String R
  | .null => .ok r
  | .obj kvs => decodeFields fold fields set r kvs
  | j => .error (typeError j goType)

/-- A member named exactly as a field sets that field. -/
theorem decodeFields_cons_exact {k : String} {i : Nat} (h : fields.idxOf? k = some i)
    (r : R) (v : Json N) (kvs : List (String × Json N)) :
    decodeFields fold fields set r ((k, v) :: kvs) =
      (set i v r).bind (decodeFields fold fields set · kvs) := by
  rw [decodeFields, fieldFor, h, Option.some_or]

section Inv

variable {Inv : R → Prop} {set} (hset : ∀ i v r r', Inv r → set i v r = .ok r' → Inv r')
include hset

/-- An invariant that every field decoding keeps holds of the record after any members. -/
theorem decodeFields_inv :
    ∀ {r r' : R} {kvs : List (String × Json N)}, Inv r →
    decodeFields fold fields set r kvs = .ok r' → Inv r'
  | r, r', [], hr, h => by
    rw [decodeFields, Except.ok.injEq] at h
    exact h ▸ hr
  | r, r', (k, v) :: kvs, hr, h => by
    rw [decodeFields] at h
    split at h
    · cases hs : set _ v r with
      | error e => rw [hs] at h; cases h
      | ok r₁ =>
        rw [hs] at h
        exact decodeFields_inv (hset _ v r r₁ hr hs) h
    · exact decodeFields_inv hr h

theorem decodeStruct_inv {goType : String} {r r' : R} {j : Json N} (hr : Inv r)
    (h : decodeStruct fold fields set goType r j = .ok r') : Inv r' := by
  cases j with
  | null =>
    rw [decodeStruct, Except.ok.injEq] at h
    exact h ▸ hr
  | obj kvs => exact decodeFields_inv fold fields hset hr h
  | _ => cases h

end Inv

end Records

/-! ## Decoding into slices -/

/-- A Go slice variable: its elements, and the elements past its length that its backing
array still holds up to its capacity. -/
structure Slice (α : Type) where
  elems : List α
  spare : List α

/-- The elements of the backing array. -/
def Slice.backing {α : Type} (s : Slice α) : List α := s.elems ++ s.spare

section Slices

variable {α : Type} (decodeInto : α → Json N → Except String α) (zero : α)

/-- Decoding the elements of an array, the `i`-th into the `i`-th of `old`, or into a zero
value past its end. -/
def decodeElems : List α → List (Json N) → Except String (List α)
  | _, [] => .ok []
  | old, v :: vs => do
    let x ← decodeInto (old.headD zero) v
    let xs ← decodeElems old.tail vs
    pure (x :: xs)

/-- Decoding into a slice variable: `null` makes it nil, an empty array a new empty slice, and
an array of `n` values is decoded into the first `n` elements of the backing array (grown with
zero values), which become the slice; any other value is refused. -/
def decodeSlice (goType : String) (s : Slice α) : Json N → Except String (Slice α)
  | .null => .ok ⟨[], []⟩
  | .arr [] => .ok ⟨[], []⟩
  | .arr vs => do
    let xs ← decodeElems decodeInto zero s.backing vs
    pure ⟨xs, s.backing.drop vs.length⟩
  | j => .error (typeError j goType)

section Inv

variable {P : α → Prop} {decodeInto} (hinto : ∀ b v x, P b → decodeInto b v = .ok x → P x)
  {zero} (hzero : P zero)
include hinto hzero

/-- Elements decoded into elements that satisfy `P`, or into the zero value, satisfy `P`. -/
theorem decodeElems_inv :
    ∀ {old xs : List α} {vs : List (Json N)}, (∀ x ∈ old, P x) →
    decodeElems decodeInto zero old vs = .ok xs → ∀ x ∈ xs, P x
  | _, xs, [], _, h => by
    rw [decodeElems, Except.ok.injEq] at h
    simp [← h]
  | old, xs, v :: vs, hold, h => by
    have hhead : P (old.headD zero) := by
      cases old with
      | nil => exact hzero
      | cons y ys => exact hold y List.mem_cons_self
    cases hx : decodeInto (old.headD zero) v with
    | error e => simp only [decodeElems, hx, bind, Except.bind, reduceCtorEq] at h
    | ok x =>
      cases hxs : decodeElems decodeInto zero old.tail vs with
      | error e => simp only [decodeElems, hx, hxs, bind, Except.bind, reduceCtorEq] at h
      | ok xs' =>
        simp only [decodeElems, hx, hxs, bind, Except.bind, pure, Except.pure,
          Except.ok.injEq] at h
        subst h
        intro y hy
        rcases List.mem_cons.mp hy with rfl | hy
        · exact hinto _ v y hhead hx
        · exact decodeElems_inv (fun y hy => hold y (List.mem_of_mem_tail hy)) hxs y hy

/-- Decoding into a slice whose backing array satisfies `P` leaves one that does. -/
theorem decodeSlice_inv {goType : String} {s s' : Slice α} {j : Json N}
    (hs : ∀ x ∈ s.backing, P x) (h : decodeSlice decodeInto zero goType s j = .ok s') :
    ∀ x ∈ s'.backing, P x := by
  cases j with
  | null =>
    rw [decodeSlice, Except.ok.injEq] at h
    simp [← h, Slice.backing]
  | arr vs =>
    cases vs with
    | nil =>
      rw [decodeSlice, Except.ok.injEq] at h
      simp [← h, Slice.backing]
    | cons v vs =>
      cases hxs : decodeElems decodeInto zero s.backing (v :: vs) with
      | error e => simp [decodeSlice, hxs, bind, Except.bind] at h
      | ok xs =>
        simp only [decodeSlice, hxs, bind, Except.bind, pure, Except.pure, Except.ok.injEq] at h
        subst h
        intro x hx
        rcases List.mem_append.mp hx with hx | hx
        · exact decodeElems_inv hinto hzero hs hxs x hx
        · exact hs x (List.mem_of_mem_drop hx)
  | _ => cases h

end Inv

/-- Encoding every element, where each has an encoding related to it by `R`, gives encodings
related to the elements one by one. -/
theorem mapM_forall₂ {β ε : Type} {enc : α → Except ε β} {R : α → β → Prop} :
    ∀ {xs : List α}, (∀ x ∈ xs, ∃ t, enc x = .ok t ∧ R x t) →
    ∃ ts, xs.mapM enc = .ok ts ∧ List.Forall₂ R xs ts
  | [], _ => ⟨[], rfl, List.Forall₂.nil⟩
  | x :: xs, h => by
    obtain ⟨t, ht, hR⟩ := h x List.mem_cons_self
    obtain ⟨ts, hts, hRs⟩ := mapM_forall₂ fun y hy => h y (List.mem_cons_of_mem x hy)
    exact ⟨t :: ts, by simp [List.mapM_cons, ht, hts, bind, Except.bind, pure, Except.pure],
      List.Forall₂.cons hR hRs⟩

/-- An array of encodings that decode to their values, into any element, decodes to the
values. -/
theorem decodeElems_of_forall₂ {xs : List α} :
    ∀ {ts : List (Json N)}, List.Forall₂ (fun x t => ∀ b, decodeInto b t = .ok x) xs ts →
    ∀ old, decodeElems decodeInto zero old ts = .ok xs
  | [], h, _ => by
    rw [List.forall₂_nil_right_iff.mp h]
    rfl
  | t :: ts, h, old => by
    obtain ⟨x, xs', hx, hxs, rfl⟩ := List.forall₂_cons_right_iff.mp h
    simp [decodeElems, hx, decodeElems_of_forall₂ hxs, bind, Except.bind, pure, Except.pure]

theorem decodeSlice_arr {goType : String} {xs : List α} {ts : List (Json N)}
    (h : List.Forall₂ (fun x t => ∀ b, decodeInto b t = .ok x) xs ts) (s : Slice α) :
    ∃ spare, decodeSlice decodeInto zero goType s (.arr ts) = .ok ⟨xs, spare⟩ := by
  cases ts with
  | nil =>
    rw [List.forall₂_nil_right_iff.mp h]
    exact ⟨[], rfl⟩
  | cons t ts =>
    refine ⟨s.backing.drop (ts.length + 1), ?_⟩
    simp [decodeSlice, decodeElems_of_forall₂ decodeInto zero h, bind, Except.bind, pure,
      Except.pure]

end Slices

end Json
