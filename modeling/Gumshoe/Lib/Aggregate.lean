import Gumshoe.Lib.SortedMap
import Mathlib.Algebra.Group.Defs

/-!
# Collapsing keyed records

A store that collapses records with equal keys keeps, under each key, one value standing for
everything inserted under it. `total k l` is the sum (in a commutative monoid) of the values a
list of keyed records `l` has under `k`, or `none` when it has none; `Tracks R m l` says the
sorted map `m` holds, under each key, a value related by `R` to the total of `l` there, and no
other key. So a key is stored exactly when some record has it, and its value is the collapse of
those records.

* `Tracks.absorb` — absorbing a record into the value under its key (or storing it under a new
  key) tracks the history with the record appended;
* `Tracks.mergeWith` — the merge of two maps tracks the two histories appended;
* `total_restrict` — the records under one outer key of a two-level key form a history of their
  own, keyed by the inner key.

`R` is whatever the combining function turns into addition: a fixed-width value relates to an
exact sum by reduction modulo the width, and a relation true of all values tracks the keys
alone.
-/

namespace SortedMap

/-! ## Totals -/

section Total

variable {κ α : Type} [DecidableEq κ] [AddCommMonoid α]

/-- The sum of the values `l` lists under `k`, or `none` when it lists none. -/
def total (k : κ) : List (κ × α) → Option α
  | [] => none
  | (k', a) :: l => if k' = k then some (a + (total k l).getD 0) else total k l

@[simp] theorem total_nil (k : κ) : total k ([] : List (κ × α)) = none := rfl

theorem total_cons (k k' : κ) (a : α) (l : List (κ × α)) :
    total k ((k', a) :: l) = if k' = k then some (a + (total k l).getD 0) else total k l := rfl

theorem total_singleton (k : κ) (a : α) : total k [(k, a)] = some a := by
  simp [total_cons]

theorem total_singleton_of_ne {k k' : κ} (a : α) (h : k' ≠ k) : total k [(k', a)] = none := by
  simp [total_cons, h]

theorem total_eq_none_iff {k : κ} {l : List (κ × α)} : total k l = none ↔ ∀ p ∈ l, p.1 ≠ k := by
  induction l with
  | nil => simp
  | cons p l ih =>
    obtain ⟨k', a⟩ := p
    by_cases hk : k' = k
    · simp [total_cons, hk]
    · simp [total_cons, hk, ih]

/-- Totals add up over an append. -/
theorem total_append (k : κ) (l₁ l₂ : List (κ × α)) :
    total k (l₁ ++ l₂) = Option.merge (· + ·) (total k l₁) (total k l₂) := by
  induction l₁ with
  | nil => simp
  | cons p l₁ ih =>
    obtain ⟨k', a⟩ := p
    rw [List.cons_append, total_cons, total_cons, ih]
    by_cases hk : k' = k
    · rw [if_pos hk, if_pos hk]
      cases total k l₁ <;> cases total k l₂ <;> simp [add_assoc]
    · rw [if_neg hk, if_neg hk]

/-- The order of two histories does not change their totals. -/
theorem total_append_comm (k : κ) (l₁ l₂ : List (κ × α)) :
    total k (l₁ ++ l₂) = total k (l₂ ++ l₁) := by
  rw [total_append, total_append]
  cases total k l₁ <;> cases total k l₂ <;> simp [add_comm]

end Total

/-! ## Two-level keys -/

section Restrict

variable {ι κ α : Type} [DecidableEq ι]

/-- The records under the outer key `i`, keyed by their inner key. -/
def restrict (i : ι) (l : List ((ι × κ) × α)) : List (κ × α) :=
  l.filterMap fun p => if p.1.1 = i then some (p.1.2, p.2) else none

theorem restrict_append (i : ι) (l₁ l₂ : List ((ι × κ) × α)) :
    restrict i (l₁ ++ l₂) = restrict i l₁ ++ restrict i l₂ :=
  List.filterMap_append

theorem restrict_singleton (i : ι) (k : κ) (a : α) : restrict i [((i, k), a)] = [(k, a)] := by
  simp [restrict]

theorem restrict_singleton_of_ne {i i' : ι} (k : κ) (a : α) (h : i' ≠ i) :
    restrict i [((i', k), a)] = [] := by
  simp [restrict, h]

/-- Keeping the records whose outer key passes a test keeps all or none of one outer key. -/
theorem restrict_filter (q : ι → Bool) (i : ι) (l : List ((ι × κ) × α)) :
    restrict i (l.filter fun p => q p.1.1) = if q i then restrict i l else [] := by
  induction l with
  | nil => split <;> rfl
  | cons p l ih =>
    obtain ⟨⟨i', k⟩, a⟩ := p
    by_cases hi : i' = i
    · subst hi
      by_cases hq : q i' <;> simp [restrict, hq] at ih ⊢ <;> exact ih
    · simp only [List.filter_cons]
      split <;> simp [restrict, hi] at ih ⊢ <;> exact ih

/-- The total of an inner key in the restriction is the total of the two-level key. -/
theorem total_restrict [DecidableEq κ] [AddCommMonoid α] (i : ι) (k : κ)
    (l : List ((ι × κ) × α)) :
    total k (restrict i l) = total (i, k) l := by
  induction l with
  | nil => rfl
  | cons p l ih =>
    obtain ⟨⟨i', k'⟩, a⟩ := p
    by_cases hi : i' = i
    · subst hi
      simp [restrict, total_cons, ← ih]
    · simp [restrict, total_cons, hi, ← ih]

end Restrict

/-! ## Maps that track a history -/

section Tracks

variable {κ ν α : Type} [Ord κ] [DecidableEq κ] [AddCommMonoid α]

/-- `m` holds under each key a value related by `R` to the total of `l` under it, and no other
key. -/
def Tracks (R : ν → α → Prop) (m : List (κ × ν)) (l : List (κ × α)) : Prop :=
  ∀ k, Option.Rel R (find? k m) (total k l)

/-- Absorb `v` into the value under `k` with `f`, or store it when `k` is new. -/
def absorb (f : ν → ν → ν) (k : κ) (v : ν) (m : List (κ × ν)) : List (κ × ν) :=
  insert k ((find? k m).elim v (f · v)) m

theorem tracks_nil (R : ν → α → Prop) : Tracks R ([] : List (κ × ν)) [] := fun _ => .none

variable {R : ν → α → Prop} {f : ν → ν → ν}

theorem Tracks.append_comm {m : List (κ × ν)} {l₁ l₂ : List (κ × α)}
    (h : Tracks R m (l₁ ++ l₂)) : Tracks R m (l₂ ++ l₁) := fun k => by
  rw [← total_append_comm]
  exact h k

omit [AddCommMonoid α] in
theorem rel_eq_none_iff {x : Option ν} {a : Option α} (h : Option.Rel R x a) :
    x = none ↔ a = none := by
  cases h <;> simp

omit [AddCommMonoid α] in
theorem rel_some_left {v : ν} {a : Option α} (h : Option.Rel R (some v) a) :
    ∃ b, a = some b ∧ R v b := by
  cases h with
  | some hr => exact ⟨_, rfl, hr⟩

/-- A key is stored exactly when the history has a record under it. -/
theorem Tracks.find?_eq_none_iff {m : List (κ × ν)} {l : List (κ × α)} (h : Tracks R m l)
    (k : κ) : find? k m = none ↔ ∀ p ∈ l, p.1 ≠ k := by
  rw [rel_eq_none_iff (h k), total_eq_none_iff]

/-- Merging lookups related to two totals gives a lookup related to their sum, when `f` adds. -/
theorem rel_merge (hf : ∀ v₁ v₂ a₁ a₂, R v₁ a₁ → R v₂ a₂ → R (f v₁ v₂) (a₁ + a₂))
    {x y : Option ν} {a b : Option α} (hx : Option.Rel R x a) (hy : Option.Rel R y b) :
    Option.Rel R (Option.merge f x y) (Option.merge (· + ·) a b) := by
  cases hx with
  | none => simpa using hy
  | some hxa =>
    cases hy with
    | none => exact .some hxa
    | some hyb => exact .some (hf _ _ _ _ hxa hyb)

theorem find?_absorb [Std.LawfulEqOrd κ] (k k' : κ) (v : ν) (m : List (κ × ν)) :
    find? k' (absorb f k v m) =
      if k' = k then Option.merge f (find? k m) (some v) else find? k' m := by
  rw [absorb, find?_insert]
  split
  · cases find? k m <;> rfl
  · rfl

/-- Absorbing a record tracks the history with the record appended. -/
theorem Tracks.absorb [Std.LawfulEqOrd κ]
    (hf : ∀ v₁ v₂ a₁ a₂, R v₁ a₁ → R v₂ a₂ → R (f v₁ v₂) (a₁ + a₂))
    {m : List (κ × ν)} {l : List (κ × α)} (ht : Tracks R m l) {k : κ} {v : ν} {a : α}
    (hv : R v a) : Tracks R (absorb f k v m) (l ++ [(k, a)]) := by
  intro k'
  rw [find?_absorb, total_append]
  by_cases hk : k' = k
  · subst hk
    rw [if_pos rfl, total_singleton]
    exact rel_merge hf (ht k') (.some hv)
  · rw [if_neg hk, total_singleton_of_ne a (Ne.symm hk), Option.merge_none_right]
    exact ht k'

/-- The merge of two maps tracks the two histories appended. -/
theorem Tracks.mergeWith [Std.LawfulEqOrd κ] [Std.TransOrd κ]
    (hf : ∀ v₁ v₂ a₁ a₂, R v₁ a₁ → R v₂ a₂ → R (f v₁ v₂) (a₁ + a₂))
    {m₁ m₂ : List (κ × ν)} {l₁ l₂ : List (κ × α)} (h₁ : Sorted m₁) (h₂ : Sorted m₂)
    (t₁ : Tracks R m₁ l₁) (t₂ : Tracks R m₂ l₂) : Tracks R (mergeWith f m₁ m₂) (l₁ ++ l₂) :=
  fun k => by
    rw [find?_mergeWith f h₁ h₂, total_append]
    exact rel_merge hf (t₁ k) (t₂ k)

end Tracks

end SortedMap
