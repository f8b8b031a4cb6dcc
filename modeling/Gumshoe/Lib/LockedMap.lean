import Gumshoe.Lib.GoMap
import Mathlib.Algebra.Order.BigOperators.Group.Finset
import Mathlib.Data.List.FinRange
import Mathlib.Logic.Relation

/-!
# A map with a lock per entry, filled by concurrent workers

`n` workers each read their own list of elements and file every element into one shared map under
its key. A worker takes the map's lock and looks the key up. If no entry has the key, it adds the
entry `first x` and releases the map's lock. Otherwise it takes the lock of the entry it found,
releases the map's lock (the lock is *downgraded*), and merges `x` into the entry holding the
entry's lock alone, so that merges into different entries run side by side.

**The state** (`State`): the map, and each worker's phase and the elements it has still to read.
A worker holds the map's lock while it is `waiting` and the lock of entry `i` while it is
`merging i`, so the locks are read off the phases; a step is enabled only when the lock it takes is
free (`Enabled`).

**Soundness via completions.** The completion of a state makes every merge a worker has started:
at each entry the merge being made, then the one waiting for the entry's lock (`completion`).
Every step keeps the completion equal to the loop with one lock for everything (`seqStep`) run
over the elements in the order their workers took the map's lock (`Inv`). When every worker is
done nothing is pending, so the map is that loop's result over some order of all the elements:
each element is merged exactly once (`map_of_done`).

**Progress.** Unless every worker is done some step is enabled (`exists_enabled`), and each step
lowers a count of three per element still to read (`potential_next_lt`), so every run ends with
all workers done.
-/

namespace LockedMap

/-- Where a worker is in its loop. -/
inductive Phase (β : Type)
  /-- between two elements -/
  | idle
  /-- holding the map's lock, having found the entry `i` of `x`'s key -/
  | waiting (i : Nat) (x : β)
  /-- holding the lock of entry `i`, merging `x` into it -/
  | merging (i : Nat) (x : β)

namespace Phase

variable {β : Type}

/-- The worker holds the map's lock. -/
def holdsMap : Phase β → Bool
  | waiting _ _ => true
  | _ => false

/-- The worker holds the lock of entry `i`. -/
def holdsEntry (i : Nat) : Phase β → Bool
  | merging j _ => j == i
  | _ => false

/-- The entry the worker works on. -/
def heldEntry : Phase β → Option Nat
  | idle => none
  | waiting i _ => some i
  | merging i _ => some i

/-- The element a worker merges into entry `j`. -/
def mergingAt (j : Nat) : Phase β → Option β
  | merging i x => if i = j then some x else none
  | _ => none

/-- The element a worker waits to merge into entry `j`. -/
def waitingAt (j : Nat) : Phase β → Option β
  | waiting i x => if i = j then some x else none
  | _ => none

/-- The steps a worker still has to take for the element it holds. -/
def weight : Phase β → Nat
  | idle => 0
  | waiting _ _ => 2
  | merging _ _ => 1

theorem mergingAt_eq_none {p : Phase β} {j : Nat} (h : p.holdsEntry j = false) :
    p.mergingAt j = none := by
  cases p with
  | merging i x => simp_all [holdsEntry, mergingAt]
  | _ => rfl

theorem waitingAt_eq_none {p : Phase β} (h : p.holdsMap = false) (j : Nat) :
    p.waitingAt j = none := by
  cases p with
  | waiting i x => simp [holdsMap] at h
  | _ => rfl

theorem heldEntry_of_mergingAt {p : Phase β} {j : Nat} {x : β} (h : p.mergingAt j = some x) :
    p.heldEntry = some j := by
  cases p with
  | merging i y =>
    simp only [mergingAt] at h
    split at h
    · simp_all [heldEntry]
    · cases h
  | _ => cases h

theorem heldEntry_of_waitingAt {p : Phase β} {j : Nat} {x : β} (h : p.waitingAt j = some x) :
    p.heldEntry = some j := by
  cases p with
  | waiting i y =>
    simp only [waitingAt] at h
    split at h
    · simp_all [heldEntry]
    · cases h
  | _ => cases h

end Phase

/-- The shared map and the workers. -/
structure State (κ α β : Type) (n : Nat) where
  map : List (κ × α)
  phase : Fin n → Phase β
  rest : Fin n → List β

variable {κ α β : Type} {n : Nat}

/-- The steps a worker can take. -/
inductive Event (n : Nat)
  /-- take the map's lock, read the next element and look its key up -/
  | lookup (w : Fin n)
  /-- take the lock of the entry found and release the map's lock -/
  | lockEntry (w : Fin n)
  /-- merge the element and release the entry's lock -/
  | merge (w : Fin n)

/-- A step can be taken when the lock it takes is free. -/
def Enabled (s : State κ α β n) : Event n → Prop
  | .lookup w => s.phase w = .idle ∧ s.rest w ≠ [] ∧ ∀ v, (s.phase v).holdsMap = false
  | .lockEntry w => ∃ i x, s.phase w = .waiting i x ∧ ∀ v, (s.phase v).holdsEntry i = false
  | .merge w => ∃ i x, s.phase w = .merging i x

/-- Every worker has read all its elements and holds no lock. -/
def Done (s : State κ α β n) : Prop := ∀ w, s.phase w = .idle ∧ s.rest w = []

/-- Three per element still to read, and what the workers still have to do for the elements they
hold. -/
def potential (s : State κ α β n) : Nat := ∑ w, (3 * (s.rest w).length + (s.phase w).weight)

/-- The merges pending at entry `j`, in the order they will be made: the one being made, then the
one waiting for the entry's lock. -/
def pendingAt (s : State κ α β n) (j : Nat) : List β :=
  (List.finRange n).filterMap (fun w => (s.phase w).mergingAt j) ++
    (List.finRange n).filterMap (fun w => (s.phase w).waitingAt j)

variable (eq : κ → κ → Bool) (key : β → κ) (first : β → α) (merge : α → β → α)

/-- The loop with one lock for everything: `x` starts an entry under its key, or is merged into
the entry of its key. -/
def seqStep (m : List (κ × α)) (x : β) : List (κ × α) :=
  GoMap.upsert eq m (key x) fun o => match o with
    | none => first x
    | some a => merge a x

/-- Every worker idle, with all its elements to read. -/
def init (m : List (κ × α)) (streams : Fin n → List β) : State κ α β n :=
  ⟨m, fun _ => .idle, streams⟩

/-- The effect of a step. -/
def next (s : State κ α β n) : Event n → State κ α β n
  | .lookup w =>
    match s.rest w with
    | [] => s
    | x :: xs =>
      match s.map.findIdx? (fun e => eq e.1 (key x)) with
      | none => ⟨s.map ++ [(key x, first x)], s.phase, Function.update s.rest w xs⟩
      | some i => ⟨s.map, Function.update s.phase w (.waiting i x), Function.update s.rest w xs⟩
  | .lockEntry w =>
    match s.phase w with
    | .waiting i x => ⟨s.map, Function.update s.phase w (.merging i x), s.rest⟩
    | _ => s
  | .merge w =>
    match s.phase w with
    | .merging i x =>
      ⟨s.map.modify i (fun e => (e.1, merge e.2 x)), Function.update s.phase w .idle, s.rest⟩
    | _ => s

/-- One step of some worker. -/
def Step (s t : State κ α β n) : Prop := ∃ e, Enabled s e ∧ t = next eq key first merge s e

/-- The map with every pending merge made. -/
def completion (s : State κ α β n) : List (κ × α) :=
  s.map.mapIdx fun j e => (e.1, (pendingAt s j).foldl merge e.2)

/-- What every reachable state satisfies, for the start `s₀`. -/
structure Inv (s₀ s : State κ α β n) : Prop where
  /-- at most one worker holds the map's lock -/
  map_lock : ∀ v w, (s.phase v).holdsMap = true → (s.phase w).holdsMap = true → v = w
  /-- at most one worker holds an entry's lock -/
  entry_lock : ∀ i v w, (s.phase v).holdsEntry i = true → (s.phase w).holdsEntry i = true → v = w
  /-- a worker's entry is in the map -/
  entry_lt : ∀ w i, (s.phase w).heldEntry = some i → i < s.map.length
  /-- the completion is the one-lock loop over the elements read so far, in the order the
  map's lock was taken -/
  linearized : ∃ L, (L ++ (List.finRange n).flatMap s.rest).Perm
      ((List.finRange n).flatMap s₀.rest) ∧
    completion merge s = L.foldl (seqStep eq key first merge) s₀.map

/-! ## Lists over the workers -/

section Workers

variable {γ : Type}

/-- A list over the workers with one contribution, of `w`. -/
theorem filterMap_finRange_eq_singleton {g : Fin n → Option γ} {w : Fin n} {y : γ}
    (hw : g w = some y) (h : ∀ v, v ≠ w → g v = none) : (List.finRange n).filterMap g = [y] := by
  -- over any duplicate-free list of workers holding `w`
  have hlist : ∀ l : List (Fin n), l.Nodup → w ∈ l → l.filterMap g = [y] := by
    intro l
    induction l with
    | nil => intro _ hwl; cases hwl
    | cons v l ih =>
      intro hl hwl
      obtain ⟨hvl, hl⟩ := List.nodup_cons.mp hl
      rw [List.filterMap_cons]
      by_cases hv : v = w
      · subst hv
        rw [hw, List.filterMap_eq_nil_iff.mpr fun u hu => h u (ne_of_mem_of_not_mem hu hvl)]
      · rw [h v hv]
        exact ih hl ((List.mem_cons.mp hwl).resolve_left (Ne.symm hv))
  exact hlist _ (List.nodup_finRange n) (List.mem_finRange w)

theorem filterMap_finRange_eq_nil {g : Fin n → Option γ} (h : ∀ v, g v = none) :
    (List.finRange n).filterMap g = [] :=
  List.filterMap_eq_nil_iff.mpr fun v _ => h v

/-- Reading the head of `w`'s list moves it out of the lists still to read. -/
theorem flatMap_update_perm {f : Fin n → List γ} {w : Fin n} {x : γ} {xs : List γ}
    (hw : f w = x :: xs) :
    ((List.finRange n).flatMap f).Perm (x :: (List.finRange n).flatMap (Function.update f w xs)) := by
  have hlist : ∀ l : List (Fin n), l.Nodup → w ∈ l →
      (l.flatMap f).Perm (x :: l.flatMap (Function.update f w xs)) := by
    intro l
    induction l with
    | nil => intro _ hwl; cases hwl
    | cons v l ih =>
      intro hl hwl
      obtain ⟨hvl, hl⟩ := List.nodup_cons.mp hl
      rw [List.flatMap_cons, List.flatMap_cons]
      by_cases hv : v = w
      · subst hv
        -- the other workers' lists are untouched
        have hrest : l.flatMap (Function.update f v xs) = l.flatMap f := by
          apply List.flatMap_congr
          intro u hu
          exact Function.update_of_ne (ne_of_mem_of_not_mem hu hvl) _ _
        rw [hw, Function.update_self, hrest]
        rfl
      · rw [Function.update_of_ne hv]
        exact ((ih hl ((List.mem_cons.mp hwl).resolve_left (Ne.symm hv))).append_left (f v)).trans
          List.perm_middle
  exact hlist _ (List.nodup_finRange n) (List.mem_finRange w)

end Workers

/-! ## The completion -/

variable {eq key first merge}

theorem length_completion (s : State κ α β n) : (completion merge s).length = s.map.length :=
  List.length_mapIdx

theorem getElem?_completion (s : State κ α β n) (j : Nat) :
    (completion merge s)[j]? = s.map[j]?.map fun e => (e.1, (pendingAt s j).foldl merge e.2) :=
  List.getElem?_mapIdx

theorem keys_completion (s : State κ α β n) :
    (completion merge s).map (·.1) = s.map.map (·.1) := by
  apply List.ext_getElem?
  intro j
  rw [List.getElem?_map, List.getElem?_map, getElem?_completion, Option.map_map]
  rfl

/-- A lookup in the completion finds the entry it finds in the map. -/
theorem findIdx?_completion (s : State κ α β n) (k : κ) :
    (completion merge s).findIdx? (fun e => eq e.1 k) = s.map.findIdx? (fun e => eq e.1 k) := by
  have h := congrArg (List.findIdx? (fun a => eq a k)) (@keys_completion _ _ _ _ merge s)
  rwa [List.findIdx?_map, List.findIdx?_map] at h

/-- Nothing is pending past the entries of the map. -/
theorem pendingAt_eq_nil {s : State κ α β n}
    (hlt : ∀ w i, (s.phase w).heldEntry = some i → i < s.map.length) {j : Nat}
    (hj : s.map.length ≤ j) : pendingAt s j = [] := by
  have hm : ∀ w, (s.phase w).mergingAt j = none := by
    intro w
    cases hx : (s.phase w).mergingAt j with
    | none => rfl
    | some x => exact absurd (hlt w j (Phase.heldEntry_of_mergingAt hx)) (by omega)
  have hw : ∀ w, (s.phase w).waitingAt j = none := by
    intro w
    cases hx : (s.phase w).waitingAt j with
    | none => rfl
    | some x => exact absurd (hlt w j (Phase.heldEntry_of_waitingAt hx)) (by omega)
  rw [pendingAt, filterMap_finRange_eq_nil hm, filterMap_finRange_eq_nil hw, List.append_nil]

/-- With every worker idle, nothing is pending. -/
theorem completion_of_idle {s : State κ α β n} (h : ∀ w, s.phase w = .idle) :
    completion merge s = s.map := by
  have hnil : ∀ j, pendingAt s j = [] := by
    intro j
    rw [pendingAt, filterMap_finRange_eq_nil fun w => by rw [h w]; rfl,
      filterMap_finRange_eq_nil fun w => by rw [h w]; rfl, List.append_nil]
  apply List.ext_getElem?
  intro j
  rw [getElem?_completion, hnil]
  cases s.map[j]? <;> rfl

/-! ## The steps keep the invariant -/

section Steps

variable {s₀ s : State κ α β n}

theorem inv_init (m : List (κ × α)) (streams : Fin n → List β) :
    Inv eq key first merge (init m streams) (init m streams) where
  map_lock v w hv := by simp [init, Phase.holdsMap] at hv
  entry_lock i v w hv := by simp [init, Phase.holdsEntry] at hv
  entry_lt w i hw := by simp [init, Phase.heldEntry] at hw
  linearized := ⟨[], by simp, completion_of_idle fun _ => rfl⟩

/-- A lookup that finds no entry adds one, as the one-lock loop does. -/
theorem Inv.lookup_new (hinv : Inv eq key first merge s₀ s) {w : Fin n} {x : β} {xs : List β}
    (hrest : s.rest w = x :: xs) (hfind : s.map.findIdx? (fun e => eq e.1 (key x)) = none) :
    Inv eq key first merge s₀ ⟨s.map ++ [(key x, first x)], s.phase, Function.update s.rest w xs⟩ where
  map_lock := hinv.map_lock
  entry_lock := hinv.entry_lock
  entry_lt v i hv := by
    have := hinv.entry_lt v i hv
    simp only [List.length_append, List.length_singleton]
    omega
  linearized := by
    obtain ⟨L, hperm, hL⟩ := hinv.linearized
    refine ⟨L ++ [x], ?_, ?_⟩
    · refine List.Perm.trans ?_ hperm
      rw [List.append_assoc, List.singleton_append]
      exact ((flatMap_update_perm hrest).append_left L).symm
    · -- the new entry has nothing pending
      have hseq : seqStep eq key first merge (completion merge s) x =
          completion merge s ++ [(key x, first x)] := by
        rw [seqStep, GoMap.upsert, findIdx?_completion, hfind]
      rw [List.foldl_append, List.foldl_cons, List.foldl_nil, ← hL, hseq]
      -- the phases are those of `s`, so are the pending merges
      have hpend : ∀ j, pendingAt ⟨s.map ++ [(key x, first x)], s.phase,
          Function.update s.rest w xs⟩ j = pendingAt s j := fun _ => rfl
      apply List.ext_getElem?
      intro j
      rw [getElem?_completion, hpend]
      by_cases hj : j < s.map.length
      · rw [List.getElem?_append_left hj, List.getElem?_append_left (by rwa [length_completion]),
          getElem?_completion]
      · rw [List.getElem?_append_right (by omega),
          List.getElem?_append_right (by rw [length_completion]; omega), length_completion,
          pendingAt_eq_nil hinv.entry_lt (by omega)]
        cases [(key x, first x)][j - s.map.length]? <;> rfl

/-- A lookup that finds the entry `i` leaves the merge pending at `i`, as the one-lock loop makes
it. -/
theorem Inv.lookup_found (hinv : Inv eq key first merge s₀ s) {w : Fin n} {x : β} {xs : List β}
    {i : Nat} (hfree : ∀ v, (s.phase v).holdsMap = false) (hidle : s.phase w = .idle)
    (hrest : s.rest w = x :: xs) (hfind : s.map.findIdx? (fun e => eq e.1 (key x)) = some i) :
    Inv eq key first merge s₀
      ⟨s.map, Function.update s.phase w (.waiting i x), Function.update s.rest w xs⟩ where
  map_lock v v' hv hv' := by
    -- only `w` can hold the map's lock now
    have hw : ∀ u, (Function.update s.phase w (Phase.waiting i x) u).holdsMap = true → u = w := by
      intro u hu
      by_contra hne
      rw [Function.update_of_ne hne, hfree u] at hu
      cases hu
    rw [hw v hv, hw v' hv']
  entry_lock j v v' hv hv' := by
    have hkeep : ∀ u, (Function.update s.phase w (Phase.waiting i x) u).holdsEntry j = true →
        (s.phase u).holdsEntry j = true := by
      intro u hu
      by_cases huw : u = w
      · subst huw
        simp [Phase.holdsEntry] at hu
      · rwa [Function.update_of_ne huw] at hu
    exact hinv.entry_lock j v v' (hkeep v hv) (hkeep v' hv')
  entry_lt v j hv := by
    dsimp only at hv
    by_cases hvw : v = w
    · subst hvw
      simp only [Function.update_self, Phase.heldEntry, Option.some.injEq] at hv
      subst hv
      exact (List.findIdx?_eq_some_iff_getElem.mp hfind).1
    · rw [Function.update_of_ne hvw] at hv
      exact hinv.entry_lt v j hv
  linearized := by
    obtain ⟨L, hperm, hL⟩ := hinv.linearized
    refine ⟨L ++ [x], ?_, ?_⟩
    · refine List.Perm.trans ?_ hperm
      rw [List.append_assoc, List.singleton_append]
      exact ((flatMap_update_perm hrest).append_left L).symm
    · -- the merges in progress are unchanged, and `x` now waits at `i`
      have hmerging : ∀ j, (fun v => (Function.update s.phase w (Phase.waiting i x) v).mergingAt j) =
          fun v => (s.phase v).mergingAt j := by
        intro j
        funext v
        by_cases hvw : v = w
        · subst hvw
          rw [Function.update_self, hidle]
          rfl
        · rw [Function.update_of_ne hvw]
      have hwaiting : ∀ j, (List.finRange n).filterMap
          (fun v => (Function.update s.phase w (Phase.waiting i x) v).waitingAt j) =
          if i = j then [x] else [] := by
        intro j
        split
        · apply filterMap_finRange_eq_singleton (w := w) (by simp [Phase.waitingAt, *])
          intro v hvw
          rw [Function.update_of_ne hvw, Phase.waitingAt_eq_none (hfree v)]
        · apply filterMap_finRange_eq_nil
          intro v
          by_cases hvw : v = w
          · subst hvw
            simp [Phase.waitingAt, *]
          · rw [Function.update_of_ne hvw, Phase.waitingAt_eq_none (hfree v)]
      have hpending : ∀ j, pendingAt ⟨s.map, Function.update s.phase w (.waiting i x),
          Function.update s.rest w xs⟩ j = pendingAt s j ++ if i = j then [x] else [] := by
        intro j
        simp only [pendingAt, hmerging j, hwaiting j,
          filterMap_finRange_eq_nil fun v => Phase.waitingAt_eq_none (hfree v) j, List.append_nil]
      have hseq : seqStep eq key first merge (completion merge s) x =
          (completion merge s).modify i fun e => (e.1, merge e.2 x) := by
        rw [seqStep, GoMap.upsert, findIdx?_completion, hfind]
      rw [List.foldl_append, List.foldl_cons, List.foldl_nil, ← hL, hseq]
      apply List.ext_getElem?
      intro j
      rw [getElem?_completion, List.getElem?_modify, getElem?_completion, hpending j]
      cases s.map[j]? <;> split <;> simp

/-- Taking the entry's lock moves the pending merge from waiting to being made. -/
theorem Inv.lockEntry (hinv : Inv eq key first merge s₀ s) {w : Fin n} {i : Nat} {x : β}
    (hw : s.phase w = .waiting i x) (hfree : ∀ v, (s.phase v).holdsEntry i = false) :
    Inv eq key first merge s₀ ⟨s.map, Function.update s.phase w (.merging i x), s.rest⟩ where
  map_lock v v' hv hv' := by
    have hkeep : ∀ u, (Function.update s.phase w (Phase.merging i x) u).holdsMap = true →
        (s.phase u).holdsMap = true := by
      intro u hu
      by_cases huw : u = w
      · subst huw
        simp [Phase.holdsMap] at hu
      · rwa [Function.update_of_ne huw] at hu
    exact hinv.map_lock v v' (hkeep v hv) (hkeep v' hv')
  entry_lock j v v' hv hv' := by
    -- a worker that holds `i` now is `w`; any other kept its lock
    have hkeep : ∀ u, (Function.update s.phase w (Phase.merging i x) u).holdsEntry j = true →
        u = w ∨ (s.phase u).holdsEntry j = true ∧ j ≠ i := by
      intro u hu
      by_cases huw : u = w
      · exact .inl huw
      · rw [Function.update_of_ne huw] at hu
        refine .inr ⟨hu, fun hji => ?_⟩
        rw [hji, hfree u] at hu
        cases hu
    have hwj : ∀ u, u ≠ w → (Function.update s.phase w (Phase.merging i x) u).holdsEntry j = true →
        j ≠ i := fun u huw hu => ((hkeep u hu).resolve_left huw).2
    rcases hkeep v hv with rfl | ⟨hv₁, hji⟩ <;> rcases hkeep v' hv' with rfl | ⟨hv₁', hji'⟩
    · rfl
    · simp only [Function.update_self, Phase.holdsEntry, beq_iff_eq] at hv
      exact absurd hv.symm hji'
    · simp only [Function.update_self, Phase.holdsEntry, beq_iff_eq] at hv'
      exact absurd hv'.symm hji
    · exact hinv.entry_lock j v v' hv₁ hv₁'
  entry_lt v j hv := by
    dsimp only at hv
    by_cases hvw : v = w
    · subst hvw
      rw [Function.update_self] at hv
      exact hinv.entry_lt v j (by rw [hw]; exact hv)
    · rw [Function.update_of_ne hvw] at hv
      exact hinv.entry_lt v j hv
  linearized := by
    obtain ⟨L, hperm, hL⟩ := hinv.linearized
    refine ⟨L, hperm, ?_⟩
    rw [← hL]
    -- `w` held the map's lock, so no other worker waits
    have hothers : ∀ v, v ≠ w → (s.phase v).holdsMap = false := by
      intro v hvw
      cases h : (s.phase v).holdsMap with
      | false => rfl
      | true => exact absurd (hinv.map_lock v w h (by rw [hw]; rfl)) hvw
    have hpending : ∀ j, pendingAt ⟨s.map, Function.update s.phase w (.merging i x), s.rest⟩ j =
        pendingAt s j := by
      intro j
      by_cases hij : i = j
      · subst hij
        have hm₁ : (List.finRange n).filterMap (fun v =>
            (Function.update s.phase w (Phase.merging i x) v).mergingAt i) = [x] := by
          apply filterMap_finRange_eq_singleton (w := w) (by simp [Phase.mergingAt])
          intro v hvw
          rw [Function.update_of_ne hvw, Phase.mergingAt_eq_none (hfree v)]
        have hw₁ : (List.finRange n).filterMap (fun v =>
            (Function.update s.phase w (Phase.merging i x) v).waitingAt i) = [] := by
          apply filterMap_finRange_eq_nil
          intro v
          by_cases hvw : v = w
          · subst hvw
            simp [Phase.waitingAt]
          · rw [Function.update_of_ne hvw, Phase.waitingAt_eq_none (hothers v hvw)]
        have hm₀ : (List.finRange n).filterMap (fun v => (s.phase v).mergingAt i) = [] :=
          filterMap_finRange_eq_nil fun v => Phase.mergingAt_eq_none (hfree v)
        have hw₀ : (List.finRange n).filterMap (fun v => (s.phase v).waitingAt i) = [x] := by
          apply filterMap_finRange_eq_singleton (w := w) (by simp [hw, Phase.waitingAt])
          intro v hvw
          rw [Phase.waitingAt_eq_none (hothers v hvw)]
        simp only [pendingAt, hm₁, hw₁, hm₀, hw₀, List.nil_append, List.append_nil]
      · -- at any other entry `w` contributes nothing, before or after
        have hm : (fun v => (Function.update s.phase w (Phase.merging i x) v).mergingAt j) =
            fun v => (s.phase v).mergingAt j := by
          funext v
          by_cases hvw : v = w
          · subst hvw
            simp [hw, Phase.mergingAt, hij]
          · rw [Function.update_of_ne hvw]
        have hwt : (fun v => (Function.update s.phase w (Phase.merging i x) v).waitingAt j) =
            fun v => (s.phase v).waitingAt j := by
          funext v
          by_cases hvw : v = w
          · subst hvw
            simp [hw, Phase.waitingAt, hij]
          · rw [Function.update_of_ne hvw]
        simp only [pendingAt, hm, hwt]
    apply List.ext_getElem?
    intro j
    rw [getElem?_completion, getElem?_completion, hpending j]

/-- Making the merge moves it from pending into the map. -/
theorem Inv.merged (hinv : Inv eq key first merge s₀ s) {w : Fin n} {i : Nat} {x : β}
    (hw : s.phase w = .merging i x) :
    Inv eq key first merge s₀
      ⟨s.map.modify i (fun e => (e.1, merge e.2 x)), Function.update s.phase w .idle, s.rest⟩ where
  map_lock v v' hv hv' := by
    have hkeep : ∀ u, (Function.update s.phase w Phase.idle u).holdsMap = true →
        (s.phase u).holdsMap = true := by
      intro u hu
      by_cases huw : u = w
      · subst huw
        simp [Phase.holdsMap] at hu
      · rwa [Function.update_of_ne huw] at hu
    exact hinv.map_lock v v' (hkeep v hv) (hkeep v' hv')
  entry_lock j v v' hv hv' := by
    have hkeep : ∀ u, (Function.update s.phase w Phase.idle u).holdsEntry j = true →
        (s.phase u).holdsEntry j = true := by
      intro u hu
      by_cases huw : u = w
      · subst huw
        simp [Phase.holdsEntry] at hu
      · rwa [Function.update_of_ne huw] at hu
    exact hinv.entry_lock j v v' (hkeep v hv) (hkeep v' hv')
  entry_lt v j hv := by
    dsimp only at hv ⊢
    rw [List.length_modify]
    by_cases hvw : v = w
    · subst hvw
      simp [Phase.heldEntry] at hv
    · rw [Function.update_of_ne hvw] at hv
      exact hinv.entry_lt v j hv
  linearized := by
    obtain ⟨L, hperm, hL⟩ := hinv.linearized
    refine ⟨L, hperm, ?_⟩
    rw [← hL]
    -- `w` is the only worker merging into `i`
    have hothers : ∀ v, v ≠ w → (s.phase v).holdsEntry i = false := by
      intro v hvw
      cases h : (s.phase v).holdsEntry i with
      | false => rfl
      | true => exact absurd (hinv.entry_lock i v w h (by simp [hw, Phase.holdsEntry])) hvw
    have hwaiting : ∀ j, (fun v => (Function.update s.phase w Phase.idle v).waitingAt j) =
        fun v => (s.phase v).waitingAt j := by
      intro j
      funext v
      by_cases hvw : v = w
      · subst hvw
        simp [hw, Phase.waitingAt]
      · rw [Function.update_of_ne hvw]
    have hmerging : ∀ j, (List.finRange n).filterMap (fun v => (s.phase v).mergingAt j) =
        (if i = j then [x] else []) ++ (List.finRange n).filterMap
          (fun v => (Function.update s.phase w Phase.idle v).mergingAt j) := by
      intro j
      split
      · rename_i hij
        subst hij
        rw [filterMap_finRange_eq_singleton (w := w) (y := x) (by simp [hw, Phase.mergingAt]) fun v hvw =>
            Phase.mergingAt_eq_none (hothers v hvw),
          filterMap_finRange_eq_nil fun v => ?_]
        · rfl
        by_cases hvw : v = w
        · subst hvw
          simp [Phase.mergingAt]
        · rw [Function.update_of_ne hvw, Phase.mergingAt_eq_none (hothers v hvw)]
      · rename_i hij
        rw [List.nil_append]
        congr 1
        funext v
        by_cases hvw : v = w
        · subst hvw
          simp [hw, Phase.mergingAt, hij]
        · rw [Function.update_of_ne hvw]
    apply List.ext_getElem?
    intro j
    rw [getElem?_completion, getElem?_completion, List.getElem?_modify]
    simp only [pendingAt, hwaiting, hmerging j]
    cases s.map[j]? <;> split <;> simp

/-- Every enabled step keeps the invariant. -/
theorem Inv.next (hinv : Inv eq key first merge s₀ s) {e : Event n} (he : Enabled s e) :
    Inv eq key first merge s₀ (next eq key first merge s e) := by
  cases e with
  | lookup w =>
    obtain ⟨hidle, hne, hfree⟩ := he
    obtain ⟨x, xs, hrest⟩ := List.exists_cons_of_ne_nil hne
    cases hfind : s.map.findIdx? (fun e => eq e.1 (key x)) with
    | none =>
      simp only [LockedMap.next, hrest, hfind]
      exact hinv.lookup_new hrest hfind
    | some i =>
      simp only [LockedMap.next, hrest, hfind]
      exact hinv.lookup_found hfree hidle hrest hfind
  | lockEntry w =>
    obtain ⟨i, x, hw, hfree⟩ := he
    simp only [LockedMap.next, hw]
    exact hinv.lockEntry hw hfree
  | merge w =>
    obtain ⟨i, x, hw⟩ := he
    simp only [LockedMap.next, hw]
    exact hinv.merged hw

end Steps

/-! ## Runs -/

/-- Every state a run reaches satisfies the invariant. -/
theorem inv_of_reachable {m : List (κ × α)} {streams : Fin n → List β} {s : State κ α β n}
    (h : Relation.ReflTransGen (Step eq key first merge) (init m streams) s) :
    Inv eq key first merge (init m streams) s := by
  induction h with
  | refl => exact inv_init m streams
  | tail _ hstep ih =>
    obtain ⟨e, he, rfl⟩ := hstep
    exact ih.next he

/-- **Linearizability.** When every worker is done, the map is the one-lock loop's result over some
order of all the elements: each element merged exactly once. -/
theorem map_of_done {m : List (κ × α)} {streams : Fin n → List β} {s : State κ α β n}
    (h : Relation.ReflTransGen (Step eq key first merge) (init m streams) s) (hdone : Done s) :
    ∃ L : List β, L.Perm ((List.finRange n).flatMap streams) ∧
      s.map = L.foldl (seqStep eq key first merge) m := by
  obtain ⟨L, hperm, hL⟩ := (inv_of_reachable h).linearized
  have hrest : (List.finRange n).flatMap s.rest = [] :=
    List.flatMap_eq_nil_iff.mpr fun w _ => (hdone w).2
  rw [hrest, List.append_nil] at hperm
  rw [completion_of_idle fun w => (hdone w).1] at hL
  exact ⟨L, hperm, hL⟩

/-- **No deadlock.** Unless every worker is done, some worker can take a step. -/
theorem exists_enabled {s : State κ α β n} (h : ¬Done s) : ∃ e, Enabled s e := by
  by_cases hm : ∃ w i x, s.phase w = .merging i x
  · obtain ⟨w, i, x, hw⟩ := hm
    exact ⟨.merge w, i, x, hw⟩
  · simp only [not_exists] at hm
    -- nobody merges, so every entry's lock is free
    have hfree : ∀ i v, (s.phase v).holdsEntry i = false := by
      intro i v
      cases hv : s.phase v with
      | merging j x => exact absurd hv (hm v j x)
      | _ => rfl
    by_cases hwt : ∃ w i x, s.phase w = .waiting i x
    · obtain ⟨w, i, x, hw⟩ := hwt
      exact ⟨.lockEntry w, i, x, hw, hfree i⟩
    · simp only [not_exists] at hwt
      have hidle : ∀ v, s.phase v = .idle := by
        intro v
        cases hv : s.phase v with
        | idle => rfl
        | waiting i x => exact absurd hv (hwt v i x)
        | merging i x => exact absurd hv (hm v i x)
      -- every worker is idle, so one has elements left
      obtain ⟨w, hw⟩ : ∃ w, s.rest w ≠ [] := by
        by_contra hall
        simp only [not_exists, not_not] at hall
        exact h fun w => ⟨hidle w, hall w⟩
      exact ⟨.lookup w, hidle w, hw, fun v => by rw [hidle v]; rfl⟩

/-- Lowering one worker's count lowers the potential. -/
theorem potential_lt {s t : State κ α β n} (w : Fin n)
    (hw : 3 * (t.rest w).length + (t.phase w).weight < 3 * (s.rest w).length + (s.phase w).weight)
    (hv : ∀ v, v ≠ w → t.rest v = s.rest v ∧ t.phase v = s.phase v) : potential t < potential s := by
  apply Finset.sum_lt_sum
  · intro v _
    by_cases hvw : v = w
    · subst hvw
      exact hw.le
    · rw [(hv v hvw).1, (hv v hvw).2]
  · exact ⟨w, Finset.mem_univ w, hw⟩

/-- **Termination.** Every step lowers the potential. -/
theorem potential_next_lt {s : State κ α β n} {e : Event n} (he : Enabled s e) :
    potential (next eq key first merge s e) < potential s := by
  cases e with
  | lookup w =>
    obtain ⟨hidle, hne, -⟩ := he
    obtain ⟨x, xs, hrest⟩ := List.exists_cons_of_ne_nil hne
    cases hfind : s.map.findIdx? (fun e => eq e.1 (key x)) with
    | none =>
      simp only [LockedMap.next, hrest, hfind]
      refine potential_lt w ?_ fun v hvw => ⟨Function.update_of_ne hvw _ _, rfl⟩
      simp [hrest, hidle, Phase.weight]
    | some i =>
      simp only [LockedMap.next, hrest, hfind]
      refine potential_lt w ?_ fun v hvw =>
        ⟨Function.update_of_ne hvw _ _, Function.update_of_ne hvw _ _⟩
      simp [hrest, hidle, Phase.weight]
      omega
  | lockEntry w =>
    obtain ⟨i, x, hw, -⟩ := he
    simp only [LockedMap.next, hw]
    refine potential_lt w ?_ fun v hvw => ⟨rfl, Function.update_of_ne hvw _ _⟩
    simp [hw, Phase.weight]
  | merge w =>
    obtain ⟨i, x, hw⟩ := he
    simp only [LockedMap.next, hw]
    refine potential_lt w ?_ fun v hvw => ⟨rfl, Function.update_of_ne hvw _ _⟩
    simp [hw, Phase.weight]

/-- There is no infinite run. -/
theorem step_wellFounded : WellFounded (flip (Step eq key first merge) : State κ α β n → _ → Prop) :=
  Subrelation.wf (fun {t s} (h : Step eq key first merge s t) => by
    obtain ⟨e, he, rfl⟩ := h
    exact potential_next_lt he) (measure potential).wf

end LockedMap
