import Mathlib.Data.List.Pairwise
import Mathlib.Data.List.Nodup

/-!
# Sorted association lists

An association list whose keys strictly increase under `compare` is the abstract behaviour of an
ordered map: `find?` is the map's lookup, `insert` its update, and the list itself is its in-order
enumeration. A B+tree keyed by a comparator, or a run of records written out in key order, is
read through this picture.

* `find?` and `insert` — lookup and update;
* `mergeWith f` — the classic merge of two sorted runs, where a key present in both gets `f` of
  its two values.

The comparator must be transitive and agree with equality (`Std.TransOrd`, `Std.LawfulEqOrd`).
Byte strings under lexicographic comparison and the integers are the two instances used later.

The main facts are `sorted_insert` with `find?_insert`, and `sorted_mergeWith` with
`find?_mergeWith`: the merge of two sorted runs is sorted, and looks up as `Option.merge f` of the
two lookups.
-/

namespace SortedMap

variable {κ ν : Type} [Ord κ]

/-- Keys strictly increase along the list. -/
def Sorted (l : List (κ × ν)) : Prop :=
  l.Pairwise fun a b => compare a.1 b.1 = .lt

/-- Every key of the list lies above `k`. -/
def Above (k : κ) (l : List (κ × ν)) : Prop := ∀ p ∈ l, compare k p.1 = .lt

/-- The value stored under `k`. -/
def find? (k : κ) : List (κ × ν) → Option ν
  | [] => none
  | (k', v) :: l => if compare k k' = .eq then some v else find? k l

/-- Store `v` under `k`, replacing the value already there. -/
def insert (k : κ) (v : ν) : List (κ × ν) → List (κ × ν)
  | [] => [(k, v)]
  | (k', v') :: l =>
    match compare k k' with
    | .lt => (k, v) :: (k', v') :: l
    | .eq => (k, v) :: l
    | .gt => (k', v') :: insert k v l

/-- Merge two sorted runs; a key present in both gets `f` of its two values. -/
def mergeWith (f : ν → ν → ν) : List (κ × ν) → List (κ × ν) → List (κ × ν)
  | [], l₂ => l₂
  | (k₁, v₁) :: l₁, [] => (k₁, v₁) :: l₁
  | (k₁, v₁) :: l₁, (k₂, v₂) :: l₂ =>
    match compare k₁ k₂ with
    | .lt => (k₁, v₁) :: mergeWith f l₁ ((k₂, v₂) :: l₂)
    | .gt => (k₂, v₂) :: mergeWith f ((k₁, v₁) :: l₁) l₂
    | .eq => (k₁, f v₁ v₂) :: mergeWith f l₁ l₂
termination_by l₁ l₂ => l₁.length + l₂.length

@[simp] theorem find?_nil (k : κ) : find? k ([] : List (κ × ν)) = none := rfl

theorem find?_cons (k k' : κ) (v : ν) (l : List (κ × ν)) :
    find? k ((k', v) :: l) = if compare k k' = .eq then some v else find? k l := rfl

@[simp] theorem sorted_nil : Sorted ([] : List (κ × ν)) := List.Pairwise.nil

theorem sorted_cons {k : κ} {v : ν} {l : List (κ × ν)} :
    Sorted ((k, v) :: l) ↔ Above k l ∧ Sorted l :=
  List.pairwise_cons

/-- A key below every key of the list is not found in it. -/
theorem find?_eq_none_of_lt {k : κ} {l : List (κ × ν)} (h : Above k l) :
    find? k l = none := by
  induction l with
  | nil => rfl
  | cons p l ih =>
    obtain ⟨k', v⟩ := p
    have hlt : compare k k' = .lt := h _ List.mem_cons_self
    rw [find?_cons, if_neg (by simp [hlt]), ih fun q hq => h q (List.mem_cons_of_mem _ hq)]

theorem mem_insert {k : κ} {v : ν} {l : List (κ × ν)} {p : κ × ν} (h : p ∈ insert k v l) :
    p = (k, v) ∨ p ∈ l := by
  induction l with
  | nil => simpa [insert] using h
  | cons q l ih =>
    obtain ⟨k', v'⟩ := q
    simp only [insert] at h
    split at h
    · simpa using h
    · rcases List.mem_cons.mp h with h | h
      · exact .inl h
      · exact .inr (List.mem_cons_of_mem _ h)
    · rcases List.mem_cons.mp h with h | h
      · exact .inr (h ▸ List.mem_cons_self)
      · rcases ih h with h | h
        · exact .inl h
        · exact .inr (List.mem_cons_of_mem _ h)

/-! ## Merging two sorted runs -/

theorem mem_mergeWith (f : ν → ν → ν) {l₁ l₂ : List (κ × ν)} {p : κ × ν}
    (h : p ∈ mergeWith f l₁ l₂) : p.1 ∈ l₁.map Prod.fst ∨ p.1 ∈ l₂.map Prod.fst := by
  fun_induction mergeWith f l₁ l₂ with
  | case1 l₂ => exact .inr (List.mem_map_of_mem h)
  | case2 k₁ v₁ l₁ => exact .inl (List.mem_map_of_mem h)
  | case3 k₁ v₁ l₁ k₂ v₂ l₂ _ ih =>
    rcases List.mem_cons.mp h with rfl | h
    · simp
    · rcases ih h with h | h
      · exact .inl (List.mem_cons_of_mem _ h)
      · exact .inr h
  | case4 k₁ v₁ l₁ k₂ v₂ l₂ _ ih =>
    rcases List.mem_cons.mp h with rfl | h
    · simp
    · rcases ih h with h | h
      · exact .inl h
      · exact .inr (List.mem_cons_of_mem _ h)
  | case5 k₁ v₁ l₁ k₂ v₂ l₂ _ ih =>
    rcases List.mem_cons.mp h with rfl | h
    · simp
    · rcases ih h with h | h
      · exact .inl (List.mem_cons_of_mem _ h)
      · exact .inr (List.mem_cons_of_mem _ h)

theorem mergeWith_ne_nil (f : ν → ν → ν) {l₁ : List (κ × ν)} (h : l₁ ≠ []) (l₂ : List (κ × ν)) :
    mergeWith f l₁ l₂ ≠ [] := by
  obtain ⟨⟨k₁, v₁⟩, l₁, rfl⟩ := List.exists_cons_of_ne_nil h
  cases l₂ with
  | nil => simp [mergeWith]
  | cons p l₂ =>
    obtain ⟨k₂, v₂⟩ := p
    rw [mergeWith]
    split <;> simp

/-- A property of entries that holds along both runs, and of a key present in both with `f` of
its two values, holds along the merge. -/
theorem forall_mem_mergeWith (f : ν → ν → ν) (P : κ × ν → Prop)
    (hf : ∀ k₁ k₂ v₁ v₂, P (k₁, v₁) → P (k₂, v₂) → P (k₁, f v₁ v₂)) {l₁ l₂ : List (κ × ν)}
    (h₁ : ∀ p ∈ l₁, P p) (h₂ : ∀ p ∈ l₂, P p) : ∀ p ∈ mergeWith f l₁ l₂, P p := by
  fun_induction mergeWith f l₁ l₂ with
  | case1 l₂ => exact h₂
  | case2 k₁ v₁ l₁ => exact h₁
  | case3 k₁ v₁ l₁ k₂ v₂ l₂ _ ih =>
    intro p hp
    rcases List.mem_cons.mp hp with rfl | hp
    · exact h₁ _ List.mem_cons_self
    · exact ih (fun q hq => h₁ q (List.mem_cons_of_mem _ hq)) h₂ p hp
  | case4 k₁ v₁ l₁ k₂ v₂ l₂ _ ih =>
    intro p hp
    rcases List.mem_cons.mp hp with rfl | hp
    · exact h₂ _ List.mem_cons_self
    · exact ih h₁ (fun q hq => h₂ q (List.mem_cons_of_mem _ hq)) p hp
  | case5 k₁ v₁ l₁ k₂ v₂ l₂ _ ih =>
    intro p hp
    rcases List.mem_cons.mp hp with rfl | hp
    · exact hf k₁ k₂ v₁ v₂ (h₁ _ List.mem_cons_self) (h₂ _ List.mem_cons_self)
    · exact ih (fun q hq => h₁ q (List.mem_cons_of_mem _ hq))
        (fun q hq => h₂ q (List.mem_cons_of_mem _ hq)) p hp

theorem Above.mergeWith (f : ν → ν → ν) {k : κ} {l₁ l₂ : List (κ × ν)} (h₁ : Above k l₁)
    (h₂ : Above k l₂) : Above k (mergeWith f l₁ l₂) := by
  intro p hp
  rcases mem_mergeWith f hp with hm | hm
  · obtain ⟨q, hq, hqk⟩ := List.mem_map.mp hm
    exact hqk ▸ h₁ q hq
  · obtain ⟨q, hq, hqk⟩ := List.mem_map.mp hm
    exact hqk ▸ h₂ q hq

theorem Above.cons_of_lt [Std.TransOrd κ] {k k' : κ} {v : ν} {l : List (κ × ν)}
    (hk : compare k k' = .lt) (hl : Sorted ((k', v) :: l)) : Above k ((k', v) :: l) := by
  intro p hp
  rcases List.mem_cons.mp hp with rfl | hp
  · exact hk
  · exact Std.TransCmp.lt_trans hk ((sorted_cons.mp hl).1 p hp)

/-- A key above every key of the list is stored at its end. -/
theorem insert_eq_append [Std.OrientedOrd κ] {k : κ} (v : ν) {l : List (κ × ν)}
    (h : ∀ p ∈ l, compare p.1 k = .lt) : insert k v l = l ++ [(k, v)] := by
  induction l with
  | nil => rfl
  | cons q l ih =>
    obtain ⟨k', v'⟩ := q
    have hgt : compare k k' = .gt := Std.OrientedCmp.gt_of_lt (h _ List.mem_cons_self)
    rw [insert, hgt, ih fun p hp => h p (List.mem_cons_of_mem _ hp)]
    rfl

section Lawful

variable [Std.LawfulEqOrd κ]

theorem compare_eq_iff {a b : κ} : compare a b = .eq ↔ a = b :=
  Std.LawfulEqCmp.compare_eq_iff_eq

theorem find?_cons_self (k : κ) (v : ν) (l : List (κ × ν)) : find? k ((k, v) :: l) = some v := by
  rw [find?_cons, if_pos (compare_eq_iff.mpr rfl)]

theorem find?_cons_of_ne {k k' : κ} (v : ν) (l : List (κ × ν)) (h : k ≠ k') :
    find? k ((k', v) :: l) = find? k l := by
  rw [find?_cons, if_neg (fun he => h (compare_eq_iff.mp he))]

theorem find?_eq_some_mem {l : List (κ × ν)} {k : κ} {v : ν} (h : find? k l = some v) :
    (k, v) ∈ l := by
  induction l with
  | nil => simp at h
  | cons p l ih =>
    obtain ⟨k', v'⟩ := p
    by_cases hk : k = k'
    · subst hk
      rw [find?_cons_self] at h
      cases h
      exact List.mem_cons_self
    · rw [find?_cons_of_ne _ _ hk] at h
      exact List.mem_cons_of_mem _ (ih h)

/-- A key no pair has looks up nothing. -/
theorem find?_eq_none_of_not_mem {l : List (κ × ν)} {k : κ} (h : k ∉ l.map Prod.fst) :
    find? k l = none := by
  cases hf : find? k l with
  | none => rfl
  | some v => exact absurd (List.mem_map_of_mem (find?_eq_some_mem hf)) h

/-- In a sorted list each pair is what its key looks up. -/
theorem find?_of_mem {l : List (κ × ν)} (hl : Sorted l) {k : κ} {v : ν} (h : (k, v) ∈ l) :
    find? k l = some v := by
  induction l with
  | nil => cases h
  | cons p l ih =>
    obtain ⟨k', v'⟩ := p
    obtain ⟨hhead, htail⟩ := sorted_cons.mp hl
    rcases List.mem_cons.mp h with heq | hmem
    · obtain ⟨rfl, rfl⟩ := Prod.mk.inj heq
      exact find?_cons_self k v l
    · -- a later key lies above the head, so it is not the head's
      have hne : k ≠ k' := fun he => by
        have hlt := hhead _ hmem
        rw [he, compare_eq_iff.mpr rfl] at hlt
        cases hlt
      rw [find?_cons_of_ne _ _ hne, ih htail hmem]

theorem sorted_insert [Std.TransOrd κ] (k : κ) (v : ν) {l : List (κ × ν)} (hl : Sorted l) :
    Sorted (insert k v l) := by
  induction l with
  | nil => simp [insert, Sorted]
  | cons q l ih =>
    obtain ⟨k', v'⟩ := q
    obtain ⟨hhead, htail⟩ := sorted_cons.mp hl
    simp only [insert]
    split
    · next hlt =>
      refine sorted_cons.mpr ⟨fun p hp => ?_, hl⟩
      rcases List.mem_cons.mp hp with rfl | hp
      · exact hlt
      · exact Std.TransCmp.lt_trans hlt (hhead p hp)
    · next heq =>
      obtain rfl := compare_eq_iff.mp heq
      exact sorted_cons.mpr ⟨hhead, htail⟩
    · next hgt =>
      refine sorted_cons.mpr ⟨fun p hp => ?_, ih htail⟩
      rcases mem_insert hp with rfl | hp
      · exact Std.OrientedCmp.lt_of_gt hgt
      · exact hhead p hp

@[simp] theorem find?_insert_self (k : κ) (v : ν) (l : List (κ × ν)) :
    find? k (insert k v l) = some v := by
  induction l with
  | nil => exact find?_cons_self k v []
  | cons q l ih =>
    obtain ⟨k', v'⟩ := q
    simp only [insert]
    split
    · exact find?_cons_self _ _ _
    · exact find?_cons_self _ _ _
    · next hgt =>
      have hne : k ≠ k' := fun h => by simp [h, Std.ReflOrd.compare_self] at hgt
      rw [find?_cons_of_ne _ _ hne, ih]

theorem find?_insert_of_ne {k k' : κ} (v : ν) (l : List (κ × ν)) (h : k' ≠ k) :
    find? k' (insert k v l) = find? k' l := by
  induction l with
  | nil => rw [insert, find?_cons_of_ne _ _ h, find?_nil]
  | cons q l ih =>
    obtain ⟨k₀, v₀⟩ := q
    simp only [insert]
    split
    · rw [find?_cons_of_ne _ _ h]
    · next heq =>
      obtain rfl := compare_eq_iff.mp heq
      rw [find?_cons_of_ne _ _ h, find?_cons_of_ne _ _ h]
    · by_cases hk : k' = k₀
      · subst hk
        rw [find?_cons_self, find?_cons_self]
      · rw [find?_cons_of_ne _ _ hk, find?_cons_of_ne _ _ hk, ih]

/-- Lookup after an insertion. -/
theorem find?_insert [DecidableEq κ] (k k' : κ) (v : ν) (l : List (κ × ν)) :
    find? k' (insert k v l) = if k' = k then some v else find? k' l := by
  split
  · next h => subst h; exact find?_insert_self _ _ _
  · next h => exact find?_insert_of_ne _ _ h

/-- The merge of two sorted runs is sorted. -/
theorem sorted_mergeWith [Std.TransOrd κ] (f : ν → ν → ν) {l₁ l₂ : List (κ × ν)}
    (h₁ : Sorted l₁) (h₂ : Sorted l₂) : Sorted (mergeWith f l₁ l₂) := by
  fun_induction mergeWith f l₁ l₂ with
  | case1 l₂ => exact h₂
  | case2 k₁ v₁ l₁ => exact h₁
  | case3 k₁ v₁ l₁ k₂ v₂ l₂ hlt ih =>
    obtain ⟨hhead, htail⟩ := sorted_cons.mp h₁
    exact sorted_cons.mpr ⟨Above.mergeWith f hhead (Above.cons_of_lt hlt h₂), ih htail h₂⟩
  | case4 k₁ v₁ l₁ k₂ v₂ l₂ hgt ih =>
    obtain ⟨hhead, htail⟩ := sorted_cons.mp h₂
    refine sorted_cons.mpr ⟨Above.mergeWith f ?_ hhead, ih h₁ htail⟩
    exact Above.cons_of_lt (Std.OrientedCmp.lt_of_gt hgt) h₁
  | case5 k₁ v₁ l₁ k₂ v₂ l₂ heq ih =>
    obtain ⟨hhead₁, htail₁⟩ := sorted_cons.mp h₁
    obtain ⟨hhead₂, htail₂⟩ := sorted_cons.mp h₂
    obtain rfl := compare_eq_iff.mp heq
    exact sorted_cons.mpr ⟨Above.mergeWith f hhead₁ hhead₂, ih htail₁ htail₂⟩

/-- The merge of two sorted runs looks up as the merge of the two lookups. -/
theorem find?_mergeWith [Std.TransOrd κ] (f : ν → ν → ν) {l₁ l₂ : List (κ × ν)}
    (h₁ : Sorted l₁) (h₂ : Sorted l₂) (k : κ) :
    find? k (mergeWith f l₁ l₂) = Option.merge f (find? k l₁) (find? k l₂) := by
  fun_induction mergeWith f l₁ l₂ with
  | case1 l₂ => simp
  | case2 k₁ v₁ l₁ => simp
  | case3 k₁ v₁ l₁ k₂ v₂ l₂ hlt ih =>
    by_cases hk : k = k₁
    · subst hk
      rw [find?_cons_self, find?_cons_self, find?_eq_none_of_lt (Above.cons_of_lt hlt h₂)]
      rfl
    · rw [find?_cons_of_ne _ _ hk, find?_cons_of_ne _ _ hk, ih (sorted_cons.mp h₁).2 h₂]
  | case4 k₁ v₁ l₁ k₂ v₂ l₂ hgt ih =>
    by_cases hk : k = k₂
    · subst hk
      have hnone := find?_eq_none_of_lt (Above.cons_of_lt (Std.OrientedCmp.lt_of_gt hgt) h₁)
      rw [find?_cons_self, find?_cons_self, hnone]
      rfl
    · rw [find?_cons_of_ne _ _ hk, find?_cons_of_ne _ _ hk, ih h₁ (sorted_cons.mp h₂).2]
  | case5 k₁ v₁ l₁ k₂ v₂ l₂ heq ih =>
    obtain rfl := compare_eq_iff.mp heq
    by_cases hk : k = k₁
    · subst hk
      rw [find?_cons_self, find?_cons_self, find?_cons_self]
      rfl
    · rw [find?_cons_of_ne _ _ hk, find?_cons_of_ne _ _ hk, find?_cons_of_ne _ _ hk,
        ih (sorted_cons.mp h₁).2 (sorted_cons.mp h₂).2]

end Lawful

end SortedMap
