import Mathlib.Data.List.FinRange
import Mathlib.Logic.Relation

/-!
# Goroutines in a wait group, each with one critical section

A wait group runs `n` goroutines. `Wait` blocks until all of them have returned and gives the
first error one of them returned: a goroutine that fails records its error under the group's own
mutex, and only when no error is recorded yet. The goroutines modelled here share one value
behind a second mutex, and each locks it at most once: it reaches its critical section with an
item and folds the item into the shared value, or fails before it; then it returns an error or
nil. What a goroutine does besides (a request to a server, decoding the answer) touches nothing
shared, so it commutes with the steps of the others and is left out. A goroutine takes two
steps, its critical section and its return, and the two mutexes are taken in separate steps, so
the order in which the goroutines fold their items and the order in which they return are two
orders.

**Theorem (`wait_of_done`).** When every goroutine has returned, the shared value is the fold of
the items in the order the goroutines passed their critical sections, a permutation of the
goroutines, and `Wait` gives the error of the first goroutine, in the order they returned, that
returned one. So `Wait` gives nil exactly when no goroutine fails (`wait_eq_none_iff`), and
otherwise the error of a goroutine that failed (`exists_of_wait_eq_some`).
-/

namespace WaitGroup

/-- What a goroutine does to what is shared: the item it folds in, if it reaches its critical
section, and the error it returns. -/
structure Outcome (β ε : Type) where
  item : Option β
  err : Option ε

/-- Where a goroutine is. -/
inductive Phase
  /-- before its critical section -/
  | started
  /-- past its critical section, or failed before it -/
  | unlocked
  /-- it has returned -/
  | returned
  deriving DecidableEq

/-- The shared value, each goroutine's phase, and the error the group recorded. -/
structure State (σ ε : Type) (n : Nat) where
  shared : σ
  phase : Fin n → Phase
  err : Option ε

inductive Event (n : Nat)
  | critical (w : Fin n)
  | exit (w : Fin n)

variable {σ β ε : Type} {n : Nat}

/-- A goroutine that enters its critical section with what a fallible computation gives, and
returns the computation's error otherwise. -/
def Outcome.ofExcept : Except ε β → Outcome β ε
  | .ok b => ⟨some b, none⟩
  | .error e => ⟨none, some e⟩

@[simp] theorem Outcome.ofExcept_ok (b : β) :
    Outcome.ofExcept (.ok b : Except ε β) = ⟨some b, none⟩ :=
  rfl

theorem Outcome.ofExcept_err_eq_some {x : Except ε β} {e : ε} :
    (Outcome.ofExcept x).err = some e ↔ x = .error e := by
  cases x <;> simp [Outcome.ofExcept]

section Steps

variable (update : σ → β → σ) (outcome : Fin n → Outcome β ε)

/-- Every goroutine started, nothing recorded. -/
def init (shared : σ) : State σ ε n := ⟨shared, fun _ => .started, none⟩

def Enabled (s : State σ ε n) : Event n → Prop
  | .critical w => s.phase w = .started
  | .exit w => s.phase w = .unlocked

/-- The effect of a step: the critical section folds the goroutine's item in; the return records
its error unless one is recorded already. -/
def next (s : State σ ε n) : Event n → State σ ε n
  | .critical w =>
    { s with shared := (outcome w).item.elim s.shared (update s.shared),
             phase := Function.update s.phase w .unlocked }
  | .exit w =>
    { s with err := s.err.or (outcome w).err,
             phase := Function.update s.phase w .returned }

def Step (s t : State σ ε n) : Prop := ∃ e, Enabled s e ∧ t = next update outcome s e

/-- Every goroutine has returned. -/
def Done (s : State σ ε n) : Prop := ∀ w, s.phase w = .returned

/-- What `Wait` gives once every goroutine has returned: the error recorded, or nil. -/
def wait (s : State σ ε n) : Option ε := s.err

/-- The shared value is the fold of the items of the goroutines past their critical sections,
in the order they passed them; the recorded error is the first error of the goroutines that
returned, in the order they returned. -/
structure Inv (shared₀ : σ) (s : State σ ε n) : Prop where
  folded : ∃ L : List (Fin n), L.Nodup ∧ (∀ w, w ∈ L ↔ s.phase w ≠ .started) ∧
    s.shared = (L.filterMap fun w => (outcome w).item).foldl update shared₀
  recorded : ∃ R : List (Fin n), R.Nodup ∧ (∀ w, w ∈ R ↔ s.phase w = .returned) ∧
    s.err = (R.filterMap fun w => (outcome w).err).head?

end Steps

section Runs

variable {update : σ → β → σ} {outcome : Fin n → Outcome β ε} {shared₀ : σ}

theorem inv_init : Inv update outcome shared₀ (init shared₀) where
  folded := ⟨[], List.nodup_nil, fun w => by simp [init], rfl⟩
  recorded := ⟨[], List.nodup_nil, fun w => by simp [init], rfl⟩

theorem Inv.critical {s : State σ ε n} {w : Fin n} (hs : Inv update outcome shared₀ s)
    (hw : s.phase w = .started) :
    Inv update outcome shared₀ (next update outcome s (.critical w)) where
  folded := by
    obtain ⟨L, hnd, hmem, hL⟩ := hs.folded
    have hwL : w ∉ L := fun h => (hmem w).mp h hw
    refine ⟨L ++ [w], List.concat_eq_append ▸ hnd.concat hwL, fun v => ?_, ?_⟩
    · by_cases hvw : v = w
      · subst hvw
        simp [next]
      · simp [next, hmem v, hvw]
    · -- the item, if any, is folded in last
      simp only [next, List.filterMap_append, List.filterMap_cons, List.filterMap_nil,
        List.foldl_append, ← hL]
      cases (outcome w).item <;> rfl
  recorded := by
    obtain ⟨R, hnd, hmem, hR⟩ := hs.recorded
    refine ⟨R, hnd, fun v => ?_, hR⟩
    by_cases hvw : v = w
    · subst hvw
      simp [next, hmem, hw]
    · simp [next, Function.update_of_ne hvw, hmem v]

theorem Inv.exit {s : State σ ε n} {w : Fin n} (hs : Inv update outcome shared₀ s)
    (hw : s.phase w = .unlocked) :
    Inv update outcome shared₀ (next update outcome s (.exit w)) where
  folded := by
    obtain ⟨L, hnd, hmem, hL⟩ := hs.folded
    refine ⟨L, hnd, fun v => ?_, hL⟩
    by_cases hvw : v = w
    · subst hvw
      simp [next, hmem, hw]
    · simp [next, Function.update_of_ne hvw, hmem v]
  recorded := by
    obtain ⟨R, hnd, hmem, hR⟩ := hs.recorded
    have hwR : w ∉ R := fun h => by simp [(hmem w).mp h] at hw
    refine ⟨R ++ [w], List.concat_eq_append ▸ hnd.concat hwR, fun v => ?_, ?_⟩
    · by_cases hvw : v = w
      · subst hvw
        simp [next]
      · simp [next, hmem v, hvw]
    · -- a later error is recorded only when none was before
      simp only [next, List.filterMap_append, List.filterMap_cons, List.filterMap_nil,
        List.head?_append, ← hR]
      cases (outcome w).err <;> rfl

theorem inv_of_reachable {s : State σ ε n}
    (h : Relation.ReflTransGen (Step update outcome) (init shared₀) s) :
    Inv update outcome shared₀ s := by
  induction h with
  | refl => exact inv_init
  | tail _ hstep ih =>
    obtain ⟨e, he, rfl⟩ := hstep
    cases e with
    | critical w => exact ih.critical he
    | exit w => exact ih.exit he

/-- An order of goroutines that holds exactly the goroutines is a permutation of all of them. -/
theorem perm_finRange {L : List (Fin n)} (hnd : L.Nodup) (hall : ∀ w, w ∈ L) :
    L.Perm (List.finRange n) :=
  (List.perm_ext_iff_of_nodup hnd (List.nodup_finRange n)).mpr fun w => by simp [hall w]

/-- **The wait group's result.** When every goroutine has returned, the shared value is the fold
of the items over one order of all the goroutines, and `Wait` gives the first error over another. -/
theorem wait_of_done {s : State σ ε n}
    (h : Relation.ReflTransGen (Step update outcome) (init shared₀) s) (hdone : Done s) :
    ∃ L R : List (Fin n), L.Perm (List.finRange n) ∧ R.Perm (List.finRange n) ∧
      s.shared = (L.filterMap fun w => (outcome w).item).foldl update shared₀ ∧
      wait s = (R.filterMap fun w => (outcome w).err).head? := by
  have hs := inv_of_reachable h
  obtain ⟨L, hndL, hmemL, hL⟩ := hs.folded
  obtain ⟨R, hndR, hmemR, hR⟩ := hs.recorded
  refine ⟨L, R, perm_finRange hndL fun w => ?_, perm_finRange hndR fun w => ?_, hL, hR⟩
  · simp [hmemL, hdone w]
  · simp [hmemR, hdone w]

theorem wait_eq_none_iff {s : State σ ε n}
    (h : Relation.ReflTransGen (Step update outcome) (init shared₀) s) (hdone : Done s) :
    wait s = none ↔ ∀ w, (outcome w).err = none := by
  obtain ⟨-, R, -, hR, -, hwait⟩ := wait_of_done h hdone
  rw [hwait, List.head?_eq_none_iff, List.filterMap_eq_nil_iff]
  exact ⟨fun hall w => hall w (hR.mem_iff.mpr (List.mem_finRange w)), fun hall w _ => hall w⟩

theorem exists_of_wait_eq_some {s : State σ ε n} {e : ε}
    (h : Relation.ReflTransGen (Step update outcome) (init shared₀) s) (hdone : Done s)
    (he : wait s = some e) : ∃ w, (outcome w).err = some e := by
  obtain ⟨-, R, -, -, -, hwait⟩ := wait_of_done h hdone
  rw [hwait] at he
  obtain ⟨w, -, hw⟩ := List.mem_filterMap.mp (List.mem_of_mem_head? he)
  exact ⟨w, hw⟩

/-- When some goroutine fails, `Wait` gives the error of a goroutine that failed. -/
theorem exists_wait_eq_some {s : State σ ε n}
    (h : Relation.ReflTransGen (Step update outcome) (init shared₀) s) (hdone : Done s) {w : Fin n}
    (hw : (outcome w).err ≠ none) : ∃ w' e, (outcome w').err = some e ∧ wait s = some e := by
  have hne : wait s ≠ none := fun hnone => hw ((wait_eq_none_iff h hdone).mp hnone w)
  obtain ⟨e, he⟩ := Option.ne_none_iff_exists'.mp hne
  obtain ⟨w', hw'⟩ := exists_of_wait_eq_some h hdone he
  exact ⟨w', e, hw', he⟩

end Runs

end WaitGroup
