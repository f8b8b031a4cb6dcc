import Mathlib.Logic.Function.Basic
import Mathlib.Data.List.Basic

/-!
# Swapping a version in behind a wait group

A Go idiom for a value that readers use while a writer replaces it. One goroutine serves the
readers: for each reader that arrives it adds one to the wait group of the current version and
starts a goroutine that hands the version over, waits until the reader gives it back, and calls
`Done`. To publish a new version the writer hands it to the serving goroutine, which starts a
waiter on the current version's wait group, swaps the new version in and hands the writer a
channel; the writer receives from that channel, which the waiter sends on once its `Wait`
returned, and only then reclaims what the old version used.

Versions are numbered by the swaps that published them, their epochs; the wait group of the
version of epoch `e` is the counter `count e`. Each of the writer's phases carries its payload
`a : α`, and `publish a` is the version it publishes.

**Theorem (`Inv.active_of_reclaiming`).** In every reachable state where the writer reclaims,
every reader that has not left holds the version the writer published.

The invariant behind it (`Inv`) ties each wait group to the readers of its epoch that have not
left, and says where the readers of older epochs can be in each phase of the writer: before the
swap every reader that has not left is of the current epoch; after it, of the current or the
previous one; and once the waiter's `Wait` returned, every reader of the previous epoch has left.
The swap can start the waiter before it swaps, because no reader arrives in between.

`Execution` is a run of any labelled step relation; `Execution.simulate` carries a run of a
machine that refines this one (every step a step here, or invisible here) down to a run here.
-/

namespace GracePeriod

/-! ## Runs of a labelled step relation -/

section Executions

variable {σ ε : Type} (step : σ → ε → σ → Prop)

/-- The runs of `step`: from `s`, the events in order lead to the last state. -/
inductive Execution : σ → List ε → σ → Prop
  | nil (s : σ) : Execution s [] s
  | cons {s t u : σ} {e : ε} {es : List ε} : step s e t → Execution t es u → Execution s (e :: es) u

variable {step}

theorem Execution.append {s t u : σ} {xs ys : List ε} (h : Execution step s xs t)
    (k : Execution step t ys u) : Execution step s (xs ++ ys) u := by
  induction h with
  | nil => exact k
  | cons hst _ ih => exact .cons hst (ih k)

/-- A run splits at any point of its events. -/
theorem Execution.split {s u : σ} {xs ys : List ε} (h : Execution step s (xs ++ ys) u) :
    ∃ t, Execution step s xs t ∧ Execution step t ys u := by
  induction xs generalizing s with
  | nil => exact ⟨s, .nil s, h⟩
  | cons x xs ih =>
    cases h with
    | cons hst hrest =>
      obtain ⟨t, h₁, h₂⟩ := ih hrest
      exact ⟨t, .cons hst h₁, h₂⟩

end Executions

/-! ## The goroutines -/

/-- Where a reader's goroutine is. -/
inductive Phase
  /-- counted in its version's wait group; the version is not handed over yet -/
  | arrived
  /-- the reader has the version -/
  | holding
  /-- the reader gave the version back; the goroutine has not called `Done` yet -/
  | released
  /-- `Done` ran -/
  | left
  deriving DecidableEq

/-- A reader: the epoch of the version it was given, the version, and its phase. -/
structure Reader (V : Type) where
  epoch : Nat
  version : V
  phase : Phase

/-- A reader its version's wait group still counts. -/
def Reader.Active {V : Type} (x : Reader V) : Prop := x.phase ≠ .left

instance {V : Type} (x : Reader V) : Decidable x.Active := inferInstanceAs (Decidable (_ ≠ _))

/-- The waiter goroutine of the last swap. -/
inductive Waiter
  /-- none running: it sent on its channel, or there was no swap -/
  | none
  /-- blocked in `Wait` on the wait group of `epoch` -/
  | waiting (epoch : Nat)
  /-- `Wait` returned; blocked sending on its channel -/
  | passed (epoch : Nat)
  deriving DecidableEq

/-- Where the writer is, with the payload of the publication under way. -/
inductive Writer (α : Type)
  | working
  /-- blocked handing the new version to the serving goroutine -/
  | handingOff (a : α)
  /-- blocked receiving from the waiter's channel -/
  | waiting (a : α)
  /-- past the wait -/
  | reclaiming (a : α)

/-- The writer is blocked on the waiter. -/
def Writer.IsWaiting {α : Type} : Writer α → Prop
  | .waiting _ => True
  | _ => False

/-- The current version and its epoch, every reader that arrived (the `r`-th is reader `r`),
the wait groups, the waiter and the writer. -/
structure State (V α : Type) where
  current : V
  epoch : Nat
  readers : List (Reader V)
  count : Nat → Nat
  waiter : Waiter
  writer : Writer α

inductive Event (α : Type)
  /-- the serving goroutine takes a reader: `Add(1)`, and its goroutine starts -/
  | arrive
  /-- reader `r`'s goroutine hands the version over -/
  | hand (r : Nat)
  /-- reader `r` gives the version back -/
  | release (r : Nat)
  /-- reader `r`'s goroutine calls `Done` -/
  | leave (r : Nat)
  /-- the writer starts handing off the version of `a` -/
  | start (a : α)
  /-- the serving goroutine takes it: starts the waiter, swaps, hands back the channel -/
  | swap
  /-- the waiter's `Wait` returns -/
  | waitReturns
  /-- the waiter's send, received by the writer -/
  | wake
  /-- the writer is done reclaiming -/
  | reclaimed

/-- A step of a reader's goroutine or of the serving goroutine's first case. -/
def Event.isReader {α : Type} : Event α → Bool
  | .arrive | .hand _ | .release _ | .leave _ => true
  | _ => false

variable {V α : Type}

/-- The phase of reader `r`. -/
def State.phase (s : State V α) (r : Nat) : Option Phase := s.readers[r]?.map (·.phase)

/-- The readers with reader `r` moved to phase `p`. -/
def State.setPhase (s : State V α) (r : Nat) (p : Phase) : List (Reader V) :=
  match s.readers[r]? with
  | some x => s.readers.set r { x with phase := p }
  | none => s.readers

/-- No reader, the version `v₀` at epoch 0, the writer at work. -/
def init (v₀ : V) : State V α := ⟨v₀, 0, [], fun _ => 0, .none, .working⟩

def Enabled (s : State V α) : Event α → Prop
  | .arrive => True
  | .hand r => s.phase r = some .arrived
  | .release r => s.phase r = some .holding
  | .leave r => s.phase r = some .released
  | .start _ => s.writer = .working
  | .swap => ∃ a, s.writer = .handingOff a
  | .waitReturns => ∃ e, s.waiter = .waiting e ∧ s.count e = 0
  | .wake => (∃ e, s.waiter = .passed e) ∧ ∃ a, s.writer = .waiting a
  | .reclaimed => ∃ a, s.writer = .reclaiming a

section Steps

variable (publish : α → V)

/-- The effect of a step. -/
def next (s : State V α) : Event α → State V α
  | .arrive =>
    { s with readers := s.readers ++ [⟨s.epoch, s.current, .arrived⟩],
             count := Function.update s.count s.epoch (s.count s.epoch + 1) }
  | .hand r => { s with readers := s.setPhase r .holding }
  | .release r => { s with readers := s.setPhase r .released }
  | .leave r =>
    match s.readers[r]? with
    | some x =>
      { s with readers := s.readers.set r { x with phase := .left },
               count := Function.update s.count x.epoch (s.count x.epoch - 1) }
    | none => s
  | .start a => { s with writer := .handingOff a }
  | .swap =>
    match s.writer with
    | .handingOff a =>
      { s with current := publish a, epoch := s.epoch + 1, waiter := .waiting s.epoch,
               writer := .waiting a }
    | _ => s
  | .waitReturns =>
    match s.waiter with
    | .waiting e => { s with waiter := .passed e }
    | _ => s
  | .wake =>
    match s.writer with
    | .waiting a => { s with waiter := .none, writer := .reclaiming a }
    | _ => s
  | .reclaimed => { s with writer := .working }

def Step (s : State V α) (e : Event α) (t : State V α) : Prop :=
  Enabled s e ∧ t = next publish s e

end Steps

/-! ## Moving one reader -/

section Readers

variable {s : State V α} {r : Nat} {x : Reader V}

/-- The readers of epoch `e` that have not left, which its wait group counts. -/
def counted (e : Nat) (y : Reader V) : Bool := decide (y.epoch = e ∧ y.Active)

theorem setPhase_of_getElem? {p : Phase} (hx : s.readers[r]? = some x) :
    s.setPhase r p = s.readers.set r { x with phase := p } := by
  rw [State.setPhase, hx]

/-- A list with one element replaced by one that counts alike counts alike. -/
theorem countP_set_of_eq {β : Type} {q : β → Bool} {l : List β} {i : Nat} {b : β}
    (hi : i < l.length) (h : q l[i] = q b) : (l.set i b).countP q = l.countP q := by
  have hle : (if q l[i] then 1 else 0) ≤ l.countP q := List.boole_getElem_le_countP hi
  rw [List.countP_set hi, h] at *
  omega

/-- A reader after a phase change is a reader before it, or the moved one. -/
theorem mem_setPhase {p : Phase} {y : Reader V} (hy : y ∈ s.setPhase r p) :
    y ∈ s.readers ∨ ∃ x, s.readers[r]? = some x ∧ y = { x with phase := p } := by
  unfold State.setPhase at hy
  split at hy
  · rename_i x hx
    rcases List.mem_or_eq_of_mem_set hy with hy | rfl
    · exact .inl hy
    · exact .inr ⟨x, hx, rfl⟩
  · exact .inl hy

/-- Moving an active reader to an active phase changes no wait group. -/
theorem countP_setPhase {p : Phase} (hx : s.readers[r]? = some x) (hxa : x.Active)
    (hp : p ≠ .left) (e : Nat) :
    (s.setPhase r p).countP (counted e) = s.readers.countP (counted e) := by
  obtain ⟨hr, rfl⟩ := List.getElem_of_getElem? hx
  have hxl : s.readers[r].phase ≠ .left := hxa
  rw [setPhase_of_getElem? hx]
  exact countP_set_of_eq hr (by simp [counted, Reader.Active, hxl, hp])

theorem active_of_phase {p : Phase} (hp : s.phase r = some p) (hpl : p ≠ .left) :
    ∃ x, s.readers[r]? = some x ∧ x.phase = p ∧ x.Active := by
  unfold State.phase at hp
  cases hx : s.readers[r]? with
  | none => simp [hx] at hp
  | some x =>
    rw [hx, Option.map_some, Option.some.injEq] at hp
    exact ⟨x, rfl, hp, by rw [Reader.Active, hp]; exact hpl⟩

end Readers

/-! ## The invariant -/

section Invariant

variable {publish : α → V}

/-- What every reachable state satisfies: each wait group counts the readers of its epoch that
have not left; readers are of epochs up to the current one, and those of the current one hold the
current version, which is what the writer published once it swapped; and where the active
readers and the waiter can be in each phase of the writer. -/
structure Inv (publish : α → V) (s : State V α) : Prop where
  count_eq : ∀ e, s.count e = s.readers.countP (counted e)
  epoch_le : ∀ x ∈ s.readers, x.epoch ≤ s.epoch
  current_eq : ∀ x ∈ s.readers, x.epoch = s.epoch → x.version = s.current
  published : ∀ a, s.writer = .waiting a ∨ s.writer = .reclaiming a → s.current = publish a
  settled : ¬s.writer.IsWaiting → s.waiter = .none ∧ ∀ x ∈ s.readers, x.Active → x.epoch = s.epoch
  waiting : s.writer.IsWaiting → 0 < s.epoch ∧
    (s.waiter = .waiting (s.epoch - 1) ∨ s.waiter = .passed (s.epoch - 1)) ∧
    ∀ x ∈ s.readers, x.Active → s.epoch - 1 ≤ x.epoch
  passed : ∀ e, s.waiter = .passed e → ∀ x ∈ s.readers, x.Active → x.epoch ≠ e

theorem inv_init (v₀ : V) : Inv publish (init v₀ : State V α) where
  count_eq _ := rfl
  epoch_le _ h := by cases h
  current_eq _ h := by cases h
  published a h := by rcases h with h | h <;> cases h
  settled _ := ⟨rfl, fun _ h => by cases h⟩
  waiting h := h.elim
  passed _ h := by cases h

variable {s : State V α}

/-- A waiter that passed its `Wait` waited on the previous epoch, while the writer waits. -/
theorem Inv.passed_eq (hs : Inv publish s) {e : Nat} (he : s.waiter = .passed e) :
    s.writer.IsWaiting ∧ 0 < s.epoch ∧ e = s.epoch - 1 := by
  by_cases hw : s.writer.IsWaiting
  · obtain ⟨hpos, hwaiter, -⟩ := hs.waiting hw
    rcases hwaiter with h | h <;> rw [he] at h <;> cases h
    exact ⟨hw, hpos, rfl⟩
  · rw [(hs.settled hw).1] at he
    cases he

/-- The invariant sees the readers only through the counts, epochs, versions and activity: new
readers each like an old one and no more active, with the counts kept, keep it. -/
theorem Inv.of_readers (hs : Inv publish s) {l : List (Reader V)} {c : Nat → Nat}
    (hmem : ∀ y ∈ l, ∃ x ∈ s.readers, y.epoch = x.epoch ∧ y.version = x.version ∧
      (y.Active → x.Active))
    (hcount : ∀ e, c e = l.countP (counted e)) : Inv publish { s with readers := l, count := c } where
  count_eq := hcount
  epoch_le y hy := by
    obtain ⟨x, hx, he, -, -⟩ := hmem y hy
    exact he ▸ hs.epoch_le x hx
  current_eq y hy hey := by
    obtain ⟨x, hx, he, hv, -⟩ := hmem y hy
    exact hv ▸ hs.current_eq x hx (he ▸ hey)
  published := hs.published
  settled hw := by
    refine ⟨(hs.settled hw).1, fun y hy hya => ?_⟩
    obtain ⟨x, hx, he, -, ha⟩ := hmem y hy
    exact he ▸ (hs.settled hw).2 x hx (ha hya)
  waiting hw := by
    obtain ⟨hpos, hwaiter, hle⟩ := hs.waiting hw
    refine ⟨hpos, hwaiter, fun y hy hya => ?_⟩
    obtain ⟨x, hx, he, -, ha⟩ := hmem y hy
    exact he ▸ hle x hx (ha hya)
  passed e he y hy hya := by
    obtain ⟨x, hx, hxe, -, ha⟩ := hmem y hy
    exact hxe ▸ hs.passed e he x hx (ha hya)

/-- A reader arrives with the current version, counted in the current wait group. -/
theorem Inv.arrive (hs : Inv publish s) : Inv publish (next publish s .arrive) where
  count_eq e := by
    simp only [next, List.countP_append, List.countP_singleton, ← hs.count_eq]
    by_cases he : e = s.epoch
    · subst he
      simp [counted, Reader.Active]
    · simp [counted, Function.update_of_ne he, Ne.symm he]
  epoch_le x hx := by
    rcases List.mem_append.mp hx with hx | hx
    · exact hs.epoch_le x hx
    · rw [List.mem_singleton.mp hx]
      exact Nat.le_refl _
  current_eq x hx := by
    rcases List.mem_append.mp hx with hx | hx
    · exact hs.current_eq x hx
    · rw [List.mem_singleton.mp hx]
      exact fun _ => rfl
  published := hs.published
  settled hw := by
    refine ⟨(hs.settled hw).1, fun x hx hxa => ?_⟩
    rcases List.mem_append.mp hx with hx | hx
    · exact (hs.settled hw).2 x hx hxa
    · rw [List.mem_singleton.mp hx]
      rfl
  waiting hw := by
    obtain ⟨hpos, hwaiter, hle⟩ := hs.waiting hw
    refine ⟨hpos, hwaiter, fun x hx hxa => ?_⟩
    rcases List.mem_append.mp hx with hx | hx
    · exact hle x hx hxa
    · rw [List.mem_singleton.mp hx]
      exact Nat.sub_le _ _
  passed e he x hx hxa := by
    rcases List.mem_append.mp hx with hx | hx
    · exact hs.passed e he x hx hxa
    · -- a waiter that passed waited on the previous epoch, not the new reader's
      obtain ⟨-, hpos, rfl⟩ := hs.passed_eq he
      rw [List.mem_singleton.mp hx]
      show s.epoch ≠ s.epoch - 1
      omega

/-- Handing the version over or taking it back moves a reader between active phases. -/
theorem Inv.setPhase (hs : Inv publish s) {r : Nat} {p p' : Phase} (hr : s.phase r = some p)
    (hpl : p ≠ .left) (hp'l : p' ≠ .left) :
    Inv publish { s with readers := s.setPhase r p' } := by
  obtain ⟨x, hx, -, hxa⟩ := active_of_phase hr hpl
  refine hs.of_readers (fun y hy => ?_) fun e => (hs.count_eq e).trans (countP_setPhase hx hxa hp'l e).symm
  rcases mem_setPhase hy with hy | ⟨x', hx', rfl⟩
  · exact ⟨y, hy, rfl, rfl, id⟩
  · obtain rfl : x' = x := Option.some.inj (hx'.symm.trans hx)
    exact ⟨x', List.mem_of_getElem? hx', rfl, rfl, fun _ => hxa⟩

/-- `Done` takes a released reader out of its wait group. -/
theorem Inv.leave (hs : Inv publish s) {r : Nat} (hr : s.phase r = some .released) :
    Inv publish (next publish s (.leave r)) := by
  obtain ⟨x, hx, -, hxa⟩ := active_of_phase hr (by decide)
  obtain ⟨hlt, hxr⟩ := List.getElem_of_getElem? hx
  simp only [next, hx]
  refine hs.of_readers (fun y hy => ?_) fun e => ?_
  · rcases List.mem_or_eq_of_mem_set hy with hy | rfl
    · exact ⟨y, hy, rfl, rfl, id⟩
    · exact ⟨x, List.mem_of_getElem? hx, rfl, rfl, fun _ => hxa⟩
  · rw [List.countP_set hlt, hxr, ← hs.count_eq]
    -- only the wait group of the reader's epoch loses one
    by_cases he : e = x.epoch
    · subst he
      have hxl : x.phase ≠ .left := hxa
      simp [counted, Reader.Active, hxl]
    · simp [counted, Function.update_of_ne he, Ne.symm he]

/-- The writer starts a hand-off only while it works, when no waiter runs. -/
theorem Inv.start (hs : Inv publish s) {a : α} (hw : s.writer = .working) :
    Inv publish (next publish s (.start a)) where
  count_eq := hs.count_eq
  epoch_le := hs.epoch_le
  current_eq := hs.current_eq
  published _ h := by rcases h with h | h <;> cases h
  settled _ := hs.settled (by rw [hw]; exact id)
  waiting h := h.elim
  passed := hs.passed

/-- The swap publishes the new version at the next epoch and starts the waiter on the old one. -/
theorem Inv.swap (hs : Inv publish s) {a : α} (hw : s.writer = .handingOff a) :
    Inv publish (next publish s .swap) := by
  have hsettled := hs.settled (by rw [hw]; exact id)
  simp only [next, hw]
  exact {
    count_eq := hs.count_eq
    epoch_le := fun x hx => Nat.le_succ_of_le (hs.epoch_le x hx)
    current_eq := fun x hx he => absurd he (Nat.ne_of_lt (Nat.lt_succ_of_le (hs.epoch_le x hx)))
    published := fun a' h => by
      rcases h with h | h
      · cases h
        rfl
      · cases h
    settled := fun h => absurd trivial h
    waiting := fun _ => ⟨Nat.succ_pos _, .inl rfl, fun x hx hxa => by
      rw [hsettled.2 x hx hxa]
      exact Nat.le_of_eq (Nat.add_sub_cancel _ _)⟩
    passed := fun _ h => by cases h }

/-- `Wait` returns once the group is empty: no active reader is of its epoch. -/
theorem Inv.waitReturns (hs : Inv publish s) {e : Nat} (he : s.waiter = .waiting e)
    (hzero : s.count e = 0) : Inv publish (next publish s .waitReturns) := by
  simp only [next, he]
  exact {
    count_eq := hs.count_eq
    epoch_le := hs.epoch_le
    current_eq := hs.current_eq
    published := hs.published
    settled := fun hw => by
      rw [(hs.settled hw).1] at he
      cases he
    waiting := fun hw => by
      obtain ⟨hpos, hwaiter, hle⟩ := hs.waiting hw
      rcases hwaiter with h | h <;> rw [he] at h <;> cases h
      exact ⟨hpos, .inr rfl, hle⟩
    passed := fun e' he' x hx hxa hxe => by
      cases he'
      rw [hs.count_eq, List.countP_eq_zero] at hzero
      exact hzero x hx (by simp [counted, hxe, hxa]) }

/-- The writer wakes with every reader of the old epoch gone. -/
theorem Inv.wake (hs : Inv publish s) {e : Nat} (he : s.waiter = .passed e) {a : α}
    (hw : s.writer = .waiting a) : Inv publish (next publish s .wake) := by
  obtain ⟨hwaiting, hpos, rfl⟩ := hs.passed_eq he
  obtain ⟨-, -, hle⟩ := hs.waiting hwaiting
  simp only [next, hw]
  exact {
    count_eq := hs.count_eq
    epoch_le := hs.epoch_le
    current_eq := hs.current_eq
    published := fun a' h => by
      rcases h with h | h
      · cases h
      · cases h
        exact hs.published _ (.inl hw)
    settled := fun _ => ⟨rfl, fun x hx hxa => by
      -- of the previous epoch or later, not the previous one, and not past the current one
      show x.epoch = s.epoch
      have h₁ := hle x hx hxa
      have h₂ := hs.passed _ he x hx hxa
      have h₃ := hs.epoch_le x hx
      omega⟩
    waiting := fun h => h.elim
    passed := fun _ h => by cases h }

/-- The writer goes back to work. -/
theorem Inv.reclaimed (hs : Inv publish s) {a : α} (hw : s.writer = .reclaiming a) :
    Inv publish (next publish s .reclaimed) where
  count_eq := hs.count_eq
  epoch_le := hs.epoch_le
  current_eq := hs.current_eq
  published _ h := by rcases h with h | h <;> cases h
  settled _ := hs.settled (by rw [hw]; exact id)
  waiting h := h.elim
  passed := hs.passed

/-- Every step keeps the invariant. -/
theorem Inv.step (hs : Inv publish s) {e : Event α} {t : State V α} (h : Step publish s e t) :
    Inv publish t := by
  obtain ⟨he, rfl⟩ := h
  cases e with
  | arrive => exact hs.arrive
  | hand r => exact hs.setPhase he (by decide) (by decide)
  | release r => exact hs.setPhase he (by decide) (by decide)
  | leave r => exact hs.leave he
  | start a => exact hs.start he
  | swap =>
    obtain ⟨a, hw⟩ := he
    exact hs.swap hw
  | waitReturns =>
    obtain ⟨e, hw, hzero⟩ := he
    exact hs.waitReturns hw hzero
  | wake =>
    obtain ⟨⟨e, hw⟩, a, ha⟩ := he
    exact hs.wake hw ha
  | reclaimed =>
    obtain ⟨a, hw⟩ := he
    exact hs.reclaimed hw

end Invariant

/-! ## What the readers were given -/

section Given

variable {publish : α → V} {s : State V α}

/-- Moving reader `i` changes no other reader's phase. -/
theorem phase_setPhase (i : Nat) (p : Phase) (r : Nat) :
    ({ s with readers := s.setPhase i p } : State V α).phase r =
      if r = i then (s.phase i).map fun _ => p else s.phase r := by
  unfold State.phase State.setPhase
  cases hx : s.readers[i]? with
  | none =>
    by_cases hr : r = i
    · subst hr
      simp [hx]
    · simp [hr]
  | some x =>
    obtain ⟨hi, rfl⟩ := List.getElem_of_getElem? hx
    by_cases hr : r = i
    · subst hr
      simp [hi]
    · simp [hr, Ne.symm hr]

theorem phase_next_hand (i r : Nat) :
    (next publish s (.hand i)).phase r =
      if r = i then (s.phase i).map fun _ => .holding else s.phase r :=
  phase_setPhase i .holding r

theorem phase_next_release (i r : Nat) :
    (next publish s (.release i)).phase r =
      if r = i then (s.phase i).map fun _ => .released else s.phase r :=
  phase_setPhase i .released r

/-- The writer's and the waiter's steps leave the readers alone. -/
theorem readers_next {e : Event α} (he : e.isReader = false) :
    (next publish s e).readers = s.readers := by
  cases e with
  | arrive | hand _ | release _ | leave _ => cases he
  | start _ | reclaimed => rfl
  | swap | waitReturns | wake =>
    simp only [next]
    split <;> rfl

/-- An arrival adds a reader at the end. -/
theorem phase_next_arrive (r : Nat) :
    (next publish s .arrive).phase r =
      if r = s.readers.length then some .arrived else s.phase r := by
  unfold State.phase
  simp only [next]
  split
  · subst r
    rw [List.getElem?_concat_length]
    rfl
  · rename_i hr
    rw [List.getElem?_append]
    split
    · rfl
    · have h₁ : [(⟨s.epoch, s.current, .arrived⟩ : Reader V)][r - s.readers.length]? = none :=
        List.getElem?_eq_none (by simp only [List.length_singleton]; omega)
      have h₂ : s.readers[r]? = none := List.getElem?_eq_none (by omega)
      rw [h₁, h₂]

/-- `Done` moves only its reader. -/
theorem phase_next_leave (i r : Nat) :
    (next publish s (.leave i)).phase r =
      if r = i then (s.phase i).map fun _ => .left else s.phase r := by
  have h := phase_setPhase (s := s) i .left r
  unfold State.setPhase at h
  simp only [next]
  split
  · rename_i x hx
    rw [hx] at h
    exact h
  · rename_i hx
    unfold State.phase at h ⊢
    split
    · subst r
      simp [hx]
    · rfl

/-- A reader keeps the version it was given. -/
theorem version_next {r : Nat} (hr : r < s.readers.length) (e : Event α) :
    (next publish s e).readers[r]?.map (·.version) = s.readers[r]?.map (·.version) := by
  cases e with
  | arrive => simp [next, List.getElem?_append_left hr]
  | hand i | release i =>
    simp only [next, State.setPhase]
    split
    · rename_i x hx
      rw [List.getElem?_set]
      split <;> simp_all
    · rfl
  | leave i =>
    simp only [next]
    split
    · rename_i x hx
      rw [List.getElem?_set]
      split <;> simp_all
    · rfl
  | start a => rfl
  | swap =>
    simp only [next]
    split <;> rfl
  | waitReturns =>
    simp only [next]
    split <;> rfl
  | wake =>
    simp only [next]
    split <;> rfl
  | reclaimed => rfl

/-- No other step changes the current version. -/
theorem current_next_of_ne {e : Event α} (he : e ≠ .swap) : (next publish s e).current = s.current := by
  cases e with
  | swap => exact absurd rfl he
  | hand r | release r => rfl
  | leave r =>
    simp only [next]
    split <;> rfl
  | waitReturns =>
    simp only [next]
    split <;> rfl
  | wake =>
    simp only [next]
    split <;> rfl
  | arrive | start _ | reclaimed => rfl

/-- The readers' steps leave the writer alone. -/
theorem writer_next_of_isReader {e : Event α} (he : e.isReader = true) :
    (next publish s e).writer = s.writer := by
  cases e with
  | hand r | release r => rfl
  | leave r =>
    simp only [next]
    split <;> rfl
  | arrive => rfl
  | start _ | swap | waitReturns | wake | reclaimed => cases he

/-- So does the waiter's wait. -/
theorem writer_next_waitReturns : (next publish s .waitReturns).writer = s.writer := by
  simp only [next]
  split <;> rfl

end Given

end GracePeriod
