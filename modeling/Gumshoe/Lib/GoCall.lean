import Mathlib.Logic.Basic
import Mathlib.Data.List.Forall2

/-!
# How a Go call ends

A Go function that returns `(T, error)` either gives its result, or a non-nil error; besides, any
call may panic at run time (an index out of range, a failed type assertion, an explicit
`panic`). `Go α` keeps the three apart, with the error's text and the panic's message, so that a
statement can say "returns an error" and "does not panic" separately.

Sequencing (`bind`) stops at the first error or panic, as `if err != nil { return err }` and
unwinding do. `Go.bind_eq_ok` takes a successful sequence apart. `Go` is a lawful monad, so the
library's lemmas on `mapM` and `foldlM` apply to it.
-/

/-- The end of a Go call: a result, a returned error, or a run-time panic. -/
inductive Go (α : Type) where
  | ok (a : α)
  | error (msg : String)
  | panic (msg : String)
deriving DecidableEq, Repr

namespace Go

variable {α β : Type}

def bind : Go α → (α → Go β) → Go β
  | ok a, f => f a
  | error msg, _ => error msg
  | panic msg, _ => panic msg

instance : Monad Go where
  pure := ok
  bind := bind

instance : LawfulMonad Go :=
  LawfulMonad.mk' Go (fun x => by cases x <;> rfl) (fun _ _ => rfl)
    (fun x _ _ => by cases x <;> rfl)

/-- Rewrite a returned error's text, as a deferred `err = fmt.Errorf(..., err)` does; a panic
passes through unchanged. -/
def mapError (f : String → String) : Go α → Go α
  | ok a => ok a
  | error msg => error (f msg)
  | panic msg => panic msg

/-- The call did not panic. -/
def NoPanic : Go α → Prop
  | panic _ => False
  | _ => True

@[simp] theorem pure_eq (a : α) : (pure a : Go α) = ok a := rfl

@[simp] theorem ok_bind (a : α) (f : α → Go β) : (ok a >>= f) = f a := rfl

@[simp] theorem error_bind (msg : String) (f : α → Go β) : (error msg >>= f) = error msg := rfl

@[simp] theorem panic_bind (msg : String) (f : α → Go β) : (panic msg >>= f) = panic msg := rfl

theorem bind_eq_ok {x : Go α} {f : α → Go β} {b : β} :
    (x >>= f) = ok b ↔ ∃ a, x = ok a ∧ f a = ok b := by
  cases x <;> simp [Bind.bind, bind]

/-- A loop whose every call succeeds returns the results in order. -/
theorem mapM_eq_ok_map {f : α → Go β} {g : α → β} :
    ∀ {l : List α}, (∀ x ∈ l, f x = ok (g x)) → l.mapM f = ok (l.map g)
  | [], _ => rfl
  | x :: l, h => by
    rw [List.mapM_cons, h x List.mem_cons_self,
      mapM_eq_ok_map fun y hy => h y (List.mem_cons_of_mem x hy)]
    rfl

/-- A loop every call of which succeeds succeeds. -/
theorem mapM_ok_of_forall {f : α → Go β} :
    ∀ {l : List α}, (∀ x ∈ l, ∃ b, f x = ok b) → ∃ bs, l.mapM f = ok bs
  | [], _ => ⟨[], rfl⟩
  | x :: l, h => by
    obtain ⟨b, hb⟩ := h x List.mem_cons_self
    obtain ⟨bs, hbs⟩ := mapM_ok_of_forall fun y hy => h y (List.mem_cons_of_mem x hy)
    refine ⟨b :: bs, ?_⟩
    rw [List.mapM_cons, hb, hbs]
    rfl

/-- A property that every successful step of a loop keeps holds at the end of a successful
run. -/
theorem foldlM_inv {σ : Type} {P : σ → Prop} {f : σ → α → Go σ} {l : List α}
    (hf : ∀ a ∈ l, ∀ s s', P s → f s a = ok s' → P s') {s s' : σ} (hs : P s)
    (h : l.foldlM f s = ok s') : P s' := by
  induction l generalizing s with
  | nil =>
    simp only [List.foldlM_nil, pure_eq, ok.injEq] at h
    exact h ▸ hs
  | cons a l ih =>
    rw [List.foldlM_cons] at h
    obtain ⟨s₁, h₁, h₂⟩ := bind_eq_ok.mp h
    exact ih (fun b hb => hf b (List.mem_cons_of_mem a hb)) (hf a List.mem_cons_self s s₁ hs h₁) h₂

/-- A loop each step of which returns the state it is given returns it. -/
theorem foldlM_eq_ok_self {σ : Type} {f : σ → α → Go σ} {s : σ} :
    ∀ {l : List α}, (∀ a ∈ l, f s a = ok s) → l.foldlM f s = ok s
  | [], _ => rfl
  | a :: l, h => by
    rw [List.foldlM_cons, h a List.mem_cons_self]
    exact foldlM_eq_ok_self fun b hb => h b (List.mem_cons_of_mem a hb)

/-- A loop whose every step succeeds with `f` is the fold of `f`. -/
theorem foldlM_eq_ok_foldl {σ : Type} {step : σ → α → Go σ} {f : σ → α → σ}
    (h : ∀ s a, step s a = ok (f s a)) : ∀ (l : List α) (s : σ), l.foldlM step s = ok (l.foldl f s)
  | [], _ => rfl
  | a :: l, s => by
    rw [List.foldlM_cons, h s a, ok_bind, foldlM_eq_ok_foldl h l]
    rfl

/-- A loop whose every successful step is `f` and certifies `P` of its element: a successful run
is the fold of `f`, over elements that all satisfy `P`. -/
theorem foldlM_eq_ok_guard {σ : Type} {P : α → Prop} {step : σ → α → Go σ} {f : σ → α → σ}
    (h : ∀ s a s', step s a = ok s' → P a ∧ s' = f s a) :
    ∀ {l : List α} {s s' : σ}, l.foldlM step s = ok s' → (∀ a ∈ l, P a) ∧ s' = l.foldl f s
  | [], _, _, hrun => by
    simp only [List.foldlM_nil, pure_eq, ok.injEq] at hrun
    exact ⟨fun _ ha => absurd ha List.not_mem_nil, hrun.symm⟩
  | a :: l, s, s', hrun => by
    rw [List.foldlM_cons] at hrun
    obtain ⟨s₁, h₁, h₂⟩ := bind_eq_ok.mp hrun
    obtain ⟨ha, rfl⟩ := h s a s₁ h₁
    obtain ⟨hl, rfl⟩ := foldlM_eq_ok_guard h h₂
    refine ⟨fun b hb => ?_, rfl⟩
    rcases List.mem_cons.mp hb with rfl | hb
    · exact ha
    · exact hl b hb

@[simp] theorem mapError_eq_ok {f : String → String} {x : Go α} {a : α} :
    mapError f x = ok a ↔ x = ok a := by
  cases x <;> simp [mapError]

@[simp] theorem noPanic_mapError {f : String → String} {x : Go α} :
    NoPanic (mapError f x) ↔ NoPanic x := by
  cases x <;> simp [mapError, NoPanic]

end Go
