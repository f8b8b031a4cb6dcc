import Mathlib.Data.List.Basic

/-!
# Go maps and pointer slices, as lists

Two containers a Go program groups values in, as the lists of their entries:

* a map `map[K]V`, as its entries in the order they were added. `find? eq m k` is `m[k]`, and
  `upsert eq m k f` stores under `k` the value `f` makes of the entry of `k`, or of nothing. Keys
  are compared by the map's key equality `eq`, Go's `==` on the key type. It need not be
  reflexive: a float NaN equals no key, so it is never found and every insertion of one adds an
  entry. It is symmetric and transitive (`KeyEq`), and that is all the lemmas below use.
* a slice `[]*V` indexed by a number computed from each value, as a list of options that
  `List.modify` updates.

The main lemmas say what a grouping loop leaves. The entry of a key is the fold of the values whose
key equals it, in the order they came (`find?_foldl_groupStep`); a slot of a slice is the fold of
the values whose index is the slot's (`getD_foldl_slotStep`). A loop that gathers the keys of
several maps into one map finds exactly the keys some map finds (`isSome_find?_gatherKeys`), and
holds no two equal keys (`pairwise_gatherKeys`).
-/

namespace GoMap

variable {κ α β : Type} (eq : κ → κ → Bool)

/-- The laws of a map's key equality: symmetric and transitive. -/
structure KeyEq : Prop where
  symm : ∀ a b, eq a b = eq b a
  trans : ∀ {a b c}, eq a b = true → eq b c = true → eq a c = true

/-- `m[key]`: the value of the first entry whose key equals `key`. -/
def find? (m : List (κ × α)) (key : κ) : Option α :=
  (m.find? fun e => eq e.1 key).map (·.2)

/-- Update the entry of `key` by `f`, or add one with `f none`: an entry keeps the key it was
added with. -/
def upsert (m : List (κ × α)) (key : κ) (f : Option α → α) : List (κ × α) :=
  match m.findIdx? (fun e => eq e.1 key) with
  | some i => m.modify i fun (k, v) => (k, f (some v))
  | none => m ++ [(key, f none)]

/-- One step of a grouping loop: `x` is folded by `g` into the entry of its key, a new entry
starting from `init`. -/
def groupStep (key : β → κ) (g : α → β → α) (init : α) (m : List (κ × α)) (x : β) :
    List (κ × α) :=
  upsert eq m (key x) fun o => g (o.getD init) x

/-- The loop `for _, m := range ms { for k := range m { keys[k] = struct{}{} } }`. -/
def gatherKeys (ms : List (List (κ × α))) : List (κ × Unit) :=
  ms.foldl (fun keys m => m.foldl (fun keys e => upsert eq keys e.1 fun _ => ()) keys) []

/-- One step of a grouping loop into a slice: `x` is folded by `g` into the slot `ix x`. -/
def slotStep (ix : β → Nat) (g : α → β → α) (init : α) (l : List (Option α)) (x : β) :
    List (Option α) :=
  l.modify (ix x) fun o => some (g (o.getD init) x)

/-! ## Lookups and updates -/

@[simp] theorem find?_nil (k : κ) : find? eq ([] : List (κ × α)) k = none := rfl

theorem find?_cons (e : κ × α) (m : List (κ × α)) (k : κ) :
    find? eq (e :: m) k = if eq e.1 k then some e.2 else find? eq m k := by
  unfold find?
  rw [List.find?_cons]
  cases eq e.1 k <;> rfl

theorem upsert_nil (key : κ) (f : Option α → α) : upsert eq [] key f = [(key, f none)] := rfl

theorem upsert_cons (e : κ × α) (m : List (κ × α)) (key : κ) (f : Option α → α) :
    upsert eq (e :: m) key f =
      if eq e.1 key then (e.1, f (some e.2)) :: m else e :: upsert eq m key f := by
  unfold upsert
  rw [List.findIdx?_cons]
  by_cases he : eq e.1 key = true
  · simp [he]
  · simp only [he, Bool.false_eq_true, if_false]
    cases hm : m.findIdx? (fun e => eq e.1 key) <;> simp [List.modify_succ_cons]

/-- An entry that a lookup finds is in the map, under a key equal to the one looked up. -/
theorem exists_of_find?_eq_some {m : List (κ × α)} {k : κ} {v : α} (h : find? eq m k = some v) :
    ∃ e ∈ m, eq e.1 k = true ∧ e.2 = v := by
  obtain ⟨e, he, rfl⟩ := Option.map_eq_some_iff.mp h
  exact ⟨e, List.mem_of_find?_eq_some he, by simpa using List.find?_some he, rfl⟩

/-- The keys after an upsert: the old ones, and possibly the key upserted. -/
theorem mem_keys_upsert {m : List (κ × α)} {key b : κ} {f : Option α → α}
    (hb : b ∈ (upsert eq m key f).map (·.1)) : b ∈ m.map (·.1) ∨ b = key := by
  induction m with
  | nil => simp_all [upsert_nil]
  | cons e m ih =>
    rw [upsert_cons] at hb
    split at hb
    · simp_all
    · simp only [List.map_cons, List.mem_cons] at hb ⊢
      rcases hb with hb | hb
      · exact .inl (.inl hb)
      · rcases ih hb with hb | hb
        · exact .inl (.inr hb)
        · exact .inr hb

variable {eq}

/-- Equal keys agree on every other key. -/
theorem KeyEq.left (h : KeyEq eq) {a b : κ} (hab : eq a b = true) (c : κ) : eq a c = eq b c := by
  have hba : eq b a = true := by rw [h.symm]; exact hab
  apply Bool.eq_iff_iff.mpr
  exact ⟨fun hac => h.trans hba hac, fun hbc => h.trans hab hbc⟩

theorem KeyEq.right (h : KeyEq eq) {a b : κ} (hab : eq a b = true) (c : κ) : eq c a = eq c b := by
  rw [h.symm c a, h.symm c b, h.left hab]

/-- Lookups of equal keys find the same entry. -/
theorem find?_congr (h : KeyEq eq) {a b : κ} (hab : eq a b = true) (m : List (κ × α)) :
    find? eq m a = find? eq m b := by
  induction m with
  | nil => rfl
  | cons e m ih => rw [find?_cons, find?_cons, h.right hab, ih]

/-- A lookup after an upsert: the updated entry for a key equal to the one upserted, the old
lookup for any other. -/
theorem find?_upsert (h : KeyEq eq) (m : List (κ × α)) (key k : κ) (f : Option α → α) :
    find? eq (upsert eq m key f) k =
      if eq key k then some (f (find? eq m key)) else find? eq m k := by
  induction m with
  | nil => simp [upsert_nil, find?_cons]
  | cons e m ih =>
    rw [upsert_cons]
    by_cases he : eq e.1 key = true
    · -- `e` is the entry of `key`, and of `k` exactly when `key` equals `k`
      have hk : eq e.1 k = eq key k := h.left he k
      simp only [he, if_true, find?_cons, hk]
      by_cases hk' : eq key k = true <;> simp [hk']
    · have hkey : find? eq (e :: m) key = find? eq m key := by simp [find?_cons, he]
      rw [if_neg he, hkey, find?_cons, find?_cons, ih]
      by_cases hk : eq key k = true
      · -- `e`'s key differs from `key`, so from `k`
        have hek : eq e.1 k = false := by
          rw [← h.right hk]; simpa using he
        simp [hk, hek]
      · simp [hk]

/-! ## Grouping loops -/

/-- Folding values into an optional accumulator: the accumulator itself for no values, else the
fold from its value. -/
theorem foldl_some (g : α → β → α) (init : α) :
    ∀ (xs : List β) (o : Option α), xs.foldl (fun o x => some (g (o.getD init) x)) o =
      if xs = [] then o else some (xs.foldl g (o.getD init))
  | [], _ => rfl
  | x :: xs, o => by
    rw [List.foldl_cons, foldl_some g init xs]
    split <;> simp_all

/-- After a loop of upserts, the entry of a key is the fold, over the values whose key equals it,
of what each upsert makes of the entry before. -/
theorem find?_foldl_upsert (h : KeyEq eq) (key : β → κ) (f : β → Option α → α) (k : κ) :
    ∀ (xs : List β) (m : List (κ × α)),
    find? eq (xs.foldl (fun m x => upsert eq m (key x) (f x)) m) k =
      (xs.filter fun x => eq (key x) k).foldl (fun o x => some (f x o)) (find? eq m k)
  | [], _ => rfl
  | x :: xs, m => by
    rw [List.foldl_cons, find?_foldl_upsert h key f k xs, List.filter_cons, find?_upsert h]
    by_cases hx : eq (key x) k = true
    · rw [if_pos hx, if_pos hx, List.foldl_cons, find?_congr h hx]
    · rw [if_neg hx, if_neg hx]

/-- After a grouping loop, the entry of a key is the fold of the values whose key equals it,
from the entry the map had before. -/
theorem find?_foldl_groupStep (h : KeyEq eq) (key : β → κ) (g : α → β → α) (init : α) (k : κ)
    (xs : List β) (m : List (κ × α)) :
    find? eq (xs.foldl (groupStep eq key g init) m) k =
      (xs.filter fun x => eq (key x) k).foldl (fun o x => some (g (o.getD init) x)) (find? eq m k) :=
  find?_foldl_upsert h key (fun x o => g (o.getD init) x) k xs m

/-- In a map whose keys are pairwise unequal, an entry whose key equals itself is what its key
finds. -/
theorem find?_of_mem {m : List (κ × α)} (hm : (m.map (·.1)).Pairwise fun a b => eq a b = false)
    {e : κ × α} (he : e ∈ m) (hrefl : eq e.1 e.1 = true) : find? eq m e.1 = some e.2 := by
  induction m with
  | nil => cases he
  | cons e' m ih =>
    rw [List.map_cons, List.pairwise_cons] at hm
    rw [find?_cons]
    rcases List.mem_cons.mp he with rfl | he
    · rw [if_pos hrefl]
    · -- an earlier key differs from `e`'s
      rw [if_neg (by simp [hm.1 e.1 (List.mem_map_of_mem he)])]
      exact ih hm.2 he

/-- A lookup in the gathered keys succeeds with a lookup in the gathered maps. -/
theorem isSome_find?_foldl_keys (h : KeyEq eq) (k : κ) :
    ∀ (m : List (κ × α)) (keys : List (κ × Unit)),
    (find? eq (m.foldl (fun keys e => upsert eq keys e.1 fun _ => ()) keys) k).isSome =
      ((find? eq keys k).isSome || (find? eq m k).isSome)
  | [], keys => by simp
  | e :: m, keys => by
    rw [List.foldl_cons, isSome_find?_foldl_keys h k m, find?_upsert h, find?_cons]
    by_cases he : eq e.1 k = true <;> simp [he]

theorem isSome_find?_gatherKeys (h : KeyEq eq) (ms : List (List (κ × α))) (k : κ) :
    (find? eq (gatherKeys eq ms) k).isSome = ms.any fun m => (find? eq m k).isSome := by
  -- the outer loop, from any gathered keys
  have hloop : ∀ (ms : List (List (κ × α))) (keys : List (κ × Unit)),
      (find? eq (ms.foldl (fun keys m =>
        m.foldl (fun keys e => upsert eq keys e.1 fun _ => ()) keys) keys) k).isSome =
      ((find? eq keys k).isSome || ms.any fun m => (find? eq m k).isSome) := by
    intro ms
    induction ms with
    | nil => simp
    | cons m ms ih =>
      intro keys
      rw [List.foldl_cons, ih, isSome_find?_foldl_keys h, List.any_cons, Bool.or_assoc]
  simpa [gatherKeys] using hloop ms []

/-- The keys of a map to which only `upsert` adds are pairwise unequal. -/
theorem pairwise_keys_upsert {m : List (κ × α)}
    (hm : (m.map (·.1)).Pairwise fun a b => eq a b = false) (key : κ) (f : Option α → α) :
    ((upsert eq m key f).map (·.1)).Pairwise fun a b => eq a b = false := by
  induction m with
  | nil => simp [upsert_nil]
  | cons e m ih =>
    rw [List.map_cons, List.pairwise_cons] at hm
    rw [upsert_cons]
    split
    · simpa using hm
    · rename_i he
      rw [List.map_cons, List.pairwise_cons]
      refine ⟨fun b hb => ?_, ih hm.2⟩
      rcases mem_keys_upsert eq hb with hb | rfl
      · exact hm.1 b hb
      · simpa using he

theorem pairwise_gatherKeys (ms : List (List (κ × α))) :
    ((gatherKeys eq ms).map (·.1)).Pairwise fun a b => eq a b = false := by
  -- both loops only upsert
  have hinner : ∀ (m : List (κ × α)) (keys : List (κ × Unit)),
      (keys.map (·.1)).Pairwise (fun a b => eq a b = false) →
      ((m.foldl (fun keys e => upsert eq keys e.1 fun _ => ()) keys).map (·.1)).Pairwise
        fun a b => eq a b = false := by
    intro m
    induction m with
    | nil => exact fun _ hk => hk
    | cons e m ih => exact fun keys hk => ih _ (pairwise_keys_upsert hk e.1 _)
  have houter : ∀ (ms : List (List (κ × α))) (keys : List (κ × Unit)),
      (keys.map (·.1)).Pairwise (fun a b => eq a b = false) →
      ((ms.foldl (fun keys m =>
        m.foldl (fun keys e => upsert eq keys e.1 fun _ => ()) keys) keys).map (·.1)).Pairwise
        fun a b => eq a b = false := by
    intro ms
    induction ms with
    | nil => exact fun _ hk => hk
    | cons m ms ih => exact fun keys hk => ih _ (hinner m keys hk)
  exact houter ms [] List.Pairwise.nil

/-- A key of the map a loop of upserts leaves is one it had, or the key of a value folded in. -/
theorem mem_keys_foldl_upsert (key : β → κ) (f : β → Option α → α) {b : κ} :
    ∀ (xs : List β) (m : List (κ × α)),
    b ∈ (xs.foldl (fun m x => upsert eq m (key x) (f x)) m).map (·.1) →
      b ∈ m.map (·.1) ∨ ∃ x ∈ xs, key x = b
  | [], _, hb => .inl hb
  | x :: xs, m, hb => by
    rw [List.foldl_cons] at hb
    rcases mem_keys_foldl_upsert key f xs _ hb with hb | ⟨y, hy, rfl⟩
    · rcases mem_keys_upsert eq hb with hb | rfl
      · exact .inl hb
      · exact .inr ⟨x, List.mem_cons_self, rfl⟩
    · exact .inr ⟨y, List.mem_cons_of_mem x hy, rfl⟩

theorem mem_keys_foldl_groupStep (key : β → κ) (g : α → β → α) (init : α) {b : κ}
    (xs : List β) (m : List (κ × α)) (hb : b ∈ (xs.foldl (groupStep eq key g init) m).map (·.1)) :
    b ∈ m.map (·.1) ∨ ∃ x ∈ xs, key x = b :=
  mem_keys_foldl_upsert key (fun x o => g (o.getD init) x) xs m hb

/-- A loop of upserts keeps the keys pairwise unequal. -/
theorem pairwise_keys_foldl_upsert (key : β → κ) (f : β → Option α → α) :
    ∀ (xs : List β) {m : List (κ × α)}, (m.map (·.1)).Pairwise (fun a b => eq a b = false) →
    ((xs.foldl (fun m x => upsert eq m (key x) (f x)) m).map (·.1)).Pairwise
      fun a b => eq a b = false
  | [], _, hm => hm
  | x :: xs, _, hm => pairwise_keys_foldl_upsert key f xs (pairwise_keys_upsert hm (key x) (f x))

/-- A gathered key is a key of one of the maps. -/
theorem mem_keys_gatherKeys {ms : List (List (κ × α))} {b : κ}
    (hb : b ∈ (gatherKeys eq ms).map (·.1)) : ∃ m ∈ ms, b ∈ m.map (·.1) := by
  -- both loops only upsert keys of the maps
  have hinner : ∀ (m : List (κ × α)) (keys : List (κ × Unit)),
      b ∈ (m.foldl (fun keys e => upsert eq keys e.1 fun _ => ()) keys).map (·.1) →
      b ∈ keys.map (·.1) ∨ b ∈ m.map (·.1) := by
    intro m
    induction m with
    | nil => exact fun _ hb => .inl hb
    | cons e m ih =>
      intro keys hb
      rcases ih _ hb with hb | hb
      · rcases mem_keys_upsert eq hb with hb | rfl
        · exact .inl hb
        · exact .inr (List.mem_map_of_mem List.mem_cons_self)
      · exact .inr (List.mem_cons_of_mem _ hb)
  have houter : ∀ (ms : List (List (κ × α))) (keys : List (κ × Unit)),
      b ∈ (ms.foldl (fun keys m =>
        m.foldl (fun keys e => upsert eq keys e.1 fun _ => ()) keys) keys).map (·.1) →
      b ∈ keys.map (·.1) ∨ ∃ m ∈ ms, b ∈ m.map (·.1) := by
    intro ms
    induction ms with
    | nil => exact fun _ hb => .inl hb
    | cons m ms ih =>
      intro keys hb
      rcases ih _ hb with hb | ⟨m', hm', hb⟩
      · rcases hinner m keys hb with hb | hb
        · exact .inl hb
        · exact .inr ⟨m, List.mem_cons_self, hb⟩
      · exact .inr ⟨m', List.mem_cons_of_mem m hm', hb⟩
  rcases houter ms [] hb with hb | hb
  · simp at hb
  · exact hb

/-! ## Keys compared by a lawful `==` -/

section Lawful

variable [BEq κ] [LawfulBEq κ]

/-- With an `==` that is equality, as Go's on strings, an upsert adds its key exactly when no
entry has it. -/
theorem keys_upsert_beq (m : List (κ × α)) (key : κ) (f : Option α → α) :
    (upsert (· == ·) m key f).map (·.1) =
      if key ∈ m.map (·.1) then m.map (·.1) else m.map (·.1) ++ [key] := by
  induction m with
  | nil => simp [upsert_nil]
  | cons e m ih =>
    rw [upsert_cons]
    by_cases he : e.1 = key
    · simp [he]
    · by_cases hk : key ∈ m.map (·.1)
      · simp [he, hk, ih]
      · simp [he, hk, ih, Ne.symm he]

/-- Inserting keys one after another: a key is present afterwards exactly when it was before or
was inserted. -/
theorem mem_keys_foldl_upsert_beq (f : κ → Option α → α) {b : κ} :
    ∀ (xs : List κ) (m : List (κ × α)),
    b ∈ (xs.foldl (fun m x => upsert (· == ·) m x (f x)) m).map (·.1) ↔ b ∈ m.map (·.1) ∨ b ∈ xs
  | [], m => by simp
  | x :: xs, m => by
    rw [List.foldl_cons, mem_keys_foldl_upsert_beq f xs, keys_upsert_beq, List.mem_cons]
    split
    · -- `x` is a key already
      constructor
      · rintro (h | h)
        · exact .inl h
        · exact .inr (.inr h)
      · rintro (h | rfl | h)
        · exact .inl h
        · exact .inl ‹_›
        · exact .inr h
    · simp [or_assoc]

/-- Inserting keys one after another never holds a key twice. -/
theorem nodup_keys_foldl_upsert_beq (f : κ → Option α → α) :
    ∀ (xs : List κ) {m : List (κ × α)}, (m.map (·.1)).Nodup →
    ((xs.foldl (fun m x => upsert (· == ·) m x (f x)) m).map (·.1)).Nodup
  | [], _, hm => hm
  | x :: xs, m, hm => by
    apply nodup_keys_foldl_upsert_beq f xs
    rw [keys_upsert_beq]
    split
    · exact hm
    · rename_i hx
      rw [List.nodup_append]
      refine ⟨hm, List.nodup_cons.mpr ⟨List.not_mem_nil, List.nodup_nil⟩, fun a ha b hb => ?_⟩
      rw [List.mem_singleton] at hb
      exact fun hab => hx (hb ▸ hab ▸ ha)

end Lawful

/-! ## Grouping into a slice -/

theorem getD_modify (l : List (Option α)) (j i : Nat) (f : Option α → Option α) (hi : i < l.length) :
    (l.modify j f).getD i none = if j = i then f (l.getD i none) else l.getD i none := by
  rw [List.getD_eq_getElem?_getD, List.getElem?_modify, List.getD_eq_getElem?_getD,
    List.getElem?_eq_getElem hi]
  split <;> rfl

/-- After a grouping loop into a slice, a slot is the fold of the values whose index is the
slot's, from the slot's value before. -/
theorem getD_foldl_slotStep (ix : β → Nat) (g : α → β → α) (init : α) {i : Nat} :
    ∀ (xs : List β) (l : List (Option α)), i < l.length →
    (xs.foldl (slotStep ix g init) l).getD i none =
      (xs.filter fun x => ix x = i).foldl (fun o x => some (g (o.getD init) x)) (l.getD i none)
  | [], _, _ => rfl
  | x :: xs, l, hi => by
    have hi' : i < (slotStep ix g init l x).length := by simpa [slotStep] using hi
    rw [List.foldl_cons, getD_foldl_slotStep ix g init xs _ hi', List.filter_cons, slotStep,
      getD_modify l _ _ _ hi]
    by_cases hx : ix x = i
    · simp [hx]
    · simp [hx]

theorem length_foldl_slotStep (ix : β → Nat) (g : α → β → α) (init : α) :
    ∀ (xs : List β) (l : List (Option α)), (xs.foldl (slotStep ix g init) l).length = l.length
  | [], _ => rfl
  | x :: xs, l => by
    rw [List.foldl_cons, length_foldl_slotStep ix g init xs, slotStep, List.length_modify]

end GoMap
