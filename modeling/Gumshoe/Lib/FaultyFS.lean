import Gumshoe.Lib.GoCall

/-!
# A directory of files whose calls may fail

The files a program writes, as a map from names to contents, together with a fault oracle: the
`n`-th filesystem call fails, with the given reason, exactly when `fault n` is `some reason`. A
statement over every oracle is a statement over every pattern of I/O failures (a full disk, a
failed `close`, a vanished file), and a program run is still a function of its inputs.

A failed call changes no file. Each call counts (`calls`), failed or not.

The calls are those of Go's `os` package that a program writing segment files needs: `create`
(`os.OpenFile` with `O_WRONLY|O_CREATE|O_TRUNC`), `write` (appending to an open file), `close`,
`readAll` (`os.Open` and a read-only `mmap` of the whole file), `remove`, `writeFile` and
`rename`. A program's goroutines that report errors in their responses are run with `attempt`.
On a directory without faults (`NoFaults`) every call but a read of a missing file succeeds.

`GoState σ` is a Go call that also changes a state `σ`; its `bind` keeps the state changes of
a call that fails, as a program's writes stay on disk when it returns an error.
-/

/-- A Go call that also changes a state: the state after it, whether it returns or fails. -/
def GoState (σ α : Type) : Type := σ → Go α × σ

namespace GoState

variable {σ α β : Type}

instance : Monad (GoState σ) where
  pure a := fun st => (.ok a, st)
  bind x f := fun st =>
    match x st with
    | (.ok a, st') => f a st'
    | (.error e, st') => (.error e, st')
    | (.panic p, st') => (.panic p, st')

/-- Lift a call that does not touch the state. -/
def lift (x : Go α) : GoState σ α := fun st => (x, st)

/-- Run `x` and keep a returned error as a value, as a goroutine reports its error in its
response; a panic still ends the program. -/
def attempt (x : GoState σ α) : GoState σ (Go α) := fun st =>
  match x st with
  | (.ok a, st') => (.ok (.ok a), st')
  | (.error e, st') => (.ok (.error e), st')
  | (.panic p, st') => (.panic p, st')

/-- Rewrite a returned error's text, as `return fmt.Errorf("...: %s", err)` does. -/
def mapError (f : String → String) (x : GoState σ α) : GoState σ α := fun st =>
  ((x st).1.mapError f, (x st).2)

theorem pure_apply (a : α) (st : σ) : (pure a : GoState σ α) st = (.ok a, st) := rfl

theorem lift_apply (x : Go α) (st : σ) : (lift x : GoState σ α) st = (x, st) := rfl

theorem pure_eq_ok_iff {a b : α} {st st' : σ} :
    (pure a : GoState σ α) st = (.ok b, st') ↔ a = b ∧ st = st' := by
  rw [pure_apply, Prod.mk.injEq, Go.ok.injEq]

theorem lift_eq_ok_iff {x : Go α} {a : α} {st st' : σ} :
    (lift x : GoState σ α) st = (.ok a, st') ↔ x = .ok a ∧ st = st' := by
  rw [lift_apply, Prod.mk.injEq]

/-- A lifted call that cannot return, such as a panic, never succeeds. -/
theorem lift_ne_ok {x : Go α} (hx : ∀ a, x ≠ .ok a) {st st' : σ} {a : α} :
    (lift x : GoState σ α) st ≠ (.ok a, st') := fun h => hx a (Prod.mk.inj h).1

theorem bind_apply (x : GoState σ α) (f : α → GoState σ β) (st : σ) :
    (x >>= f) st =
      match x st with
      | (.ok a, st') => f a st'
      | (.error e, st') => (.error e, st')
      | (.panic p, st') => (.panic p, st') := rfl

/-- A sequence returns a result only when both parts do. -/
theorem bind_eq_ok {x : GoState σ α} {f : α → GoState σ β} {st st'' : σ} {b : β} :
    (x >>= f) st = (.ok b, st'') ↔ ∃ a st', x st = (.ok a, st') ∧ f a st' = (.ok b, st'') := by
  rw [bind_apply]
  constructor
  · intro h
    split at h
    · rename_i a st' hx
      exact ⟨a, st', hx, h⟩
    · cases h
    · cases h
  · rintro ⟨a, st', hx, hf⟩
    rw [hx]
    exact hf

/-- An attempt that hands back a result ran its call to that result. -/
theorem attempt_eq_ok_ok {x : GoState σ α} {st st' : σ} {a : α}
    (h : attempt x st = (.ok (.ok a), st')) : x st = (.ok a, st') := by
  unfold attempt at h
  split at h
  · rename_i a' st'' hx
    obtain ⟨rfl, rfl⟩ : a' = a ∧ st'' = st' := by simpa using h
    exact hx
  · simp at h
  · simp at h

theorem bind_of_ok {x : GoState σ α} {f : α → GoState σ β} {st st' : σ} {a : α}
    (h : x st = (.ok a, st')) : (x >>= f) st = f a st' := by
  rw [bind_apply, h]

theorem bind_of_panic {x : GoState σ α} {f : α → GoState σ β} {st st' : σ} {p : String}
    (h : x st = (.panic p, st')) : (x >>= f) st = (.panic p, st') := by
  rw [bind_apply, h]

end GoState

/-- A directory: its files and its fault oracle. -/
structure FS where
  files : String → Option (List UInt8)
  fault : Nat → Option String
  calls : Nat

namespace FS

/-- One call: it fails when the oracle says so, and otherwise changes the files by `effect`. -/
def call (op name : String) (effect : FS → Go Unit × FS) : GoState FS Unit := fun fs =>
  match fs.fault fs.calls with
  | some reason => (.error (op ++ " " ++ name ++ ": " ++ reason), { fs with calls := fs.calls + 1 })
  | none => effect { fs with calls := fs.calls + 1 }

/-- Replace the contents of a file. -/
def put (fs : FS) (name : String) (contents : Option (List UInt8)) : FS :=
  { fs with files := fun n => if n = name then contents else fs.files n }

/-- `os.OpenFile(name, O_WRONLY|O_CREATE|O_TRUNC, 0666)`: the file exists and is empty. -/
def create (name : String) : GoState FS Unit :=
  call "open" name fun fs => (.ok (), fs.put name (some []))

/-- `f.Write(bytes)` on the open file `name`: the bytes are appended. -/
def write (name : String) (bytes : List UInt8) : GoState FS Unit :=
  call "write" name fun fs => (.ok (), fs.put name (some ((fs.files name).getD [] ++ bytes)))

/-- `f.Close()`. -/
def close (name : String) : GoState FS Unit :=
  call "close" name fun fs => (.ok (), fs)

/-- `os.Open(name)` and a read-only map of the whole file. -/
def readAll (name : String) : GoState FS (List UInt8) := fun fs =>
  match call "open" name (fun fs' => (.ok (), fs')) fs with
  | (.ok (), fs') =>
    match fs'.files name with
    | some contents => (.ok contents, fs')
    | none => (.error ("open " ++ name ++ ": no such file or directory"), fs')
  | (.error e, fs') => (.error e, fs')
  | (.panic p, fs') => (.panic p, fs')

/-- `os.Remove(name)`. -/
def remove (name : String) : GoState FS Unit :=
  call "remove" name fun fs =>
    match fs.files name with
    | some _ => (.ok (), fs.put name none)
    | none => (.error ("remove " ++ name ++ ": no such file or directory"), fs)

/-- `ioutil.WriteFile(name, bytes, 0666)`: create, write, and close also after a failed write;
the write's error wins over the close's. -/
def writeFile (name : String) (bytes : List UInt8) : GoState FS Unit := fun fs =>
  match create name fs with
  | (.ok (), fs₁) =>
    match write name bytes fs₁ with
    | (.ok (), fs₂) => close name fs₂
    | (r, fs₂) => (r, (close name fs₂).2)
  | r => r

/-- `os.Rename(old, new)`. -/
def rename (old new : String) : GoState FS Unit :=
  call "rename" old fun fs =>
    match fs.files old with
    | some contents => (.ok (), (fs.put old none).put new (some contents))
    | none => (.error ("rename " ++ old ++ " " ++ new ++ ": no such file or directory"), fs)

/-! ## Frame: a call leaves the other files alone -/

/-- `fs'` differs from `fs` at most in the file `name`. -/
def SameExcept (name : String) (fs fs' : FS) : Prop := ∀ n, n ≠ name → fs'.files n = fs.files n

@[simp] theorem put_files (fs : FS) (name : String) (c : Option (List UInt8)) (n : String) :
    (fs.put name c).files n = if n = name then c else fs.files n := rfl

theorem sameExcept_put (fs : FS) (name : String) (c : Option (List UInt8)) :
    SameExcept name fs (fs.put name c) := fun n hn => by simp [hn]

theorem SameExcept.trans {name : String} {fs fs' fs'' : FS} (h : SameExcept name fs fs')
    (h' : SameExcept name fs' fs'') : SameExcept name fs fs'' := fun n hn => by
  rw [h' n hn, h n hn]

theorem call_sameExcept {op name : String} {effect : FS → Go Unit × FS}
    (heff : ∀ fs, SameExcept name fs (effect fs).2) (fs : FS) :
    SameExcept name fs (call op name effect fs).2 := by
  unfold call
  split
  · exact fun _ _ => rfl
  · exact fun n hn => heff _ n hn

theorem create_sameExcept (name : String) (fs : FS) : SameExcept name fs (create name fs).2 :=
  call_sameExcept (fun _ => sameExcept_put _ _ _) fs

theorem write_sameExcept (name : String) (bytes : List UInt8) (fs : FS) :
    SameExcept name fs (write name bytes fs).2 :=
  call_sameExcept (fun _ => sameExcept_put _ _ _) fs

theorem readAll_files (name : String) (fs : FS) : (readAll name fs).2.files = fs.files := by
  have hcall : (call "open" name (fun fs' => (.ok (), fs')) fs).2.files = fs.files := by
    unfold call
    split <;> rfl
  unfold readAll
  rcases hc : call "open" name (fun fs' => (.ok (), fs')) fs with ⟨r, fs'⟩
  rw [hc] at hcall
  cases r with
  | ok u =>
    cases u
    simp only
    split <;> exact hcall
  | error e => exact hcall
  | panic p => exact hcall

/-- `fs'` differs from `fs` only in files whose names satisfy `P`. -/
def Touches (P : String → Prop) (fs fs' : FS) : Prop := ∀ n, ¬ P n → fs'.files n = fs.files n

theorem Touches.refl (P : String → Prop) (fs : FS) : Touches P fs fs := fun _ _ => rfl

theorem Touches.of_files {P : String → Prop} {fs fs' : FS} (h : fs'.files = fs.files) :
    Touches P fs fs' := fun n _ => by rw [h]

theorem Touches.trans {P : String → Prop} {fs fs' fs'' : FS} (h : Touches P fs fs')
    (h' : Touches P fs' fs'') : Touches P fs fs'' := fun n hn => by
  rw [h' n hn, h n hn]

theorem SameExcept.touches {P : String → Prop} {name : String} {fs fs' : FS}
    (h : SameExcept name fs fs') (hP : P name) : Touches P fs fs' := fun n hn =>
  h n (fun he => hn (he ▸ hP))

/-- Calls that each touch only files satisfying `P` touch only those in sequence, also when the
first one fails. -/
theorem Touches.bind {α β : Type} {P : String → Prop} {x : GoState FS α} {f : α → GoState FS β}
    (hx : ∀ fs, Touches P fs (x fs).2) (hf : ∀ a fs, Touches P fs (f a fs).2) (fs : FS) :
    Touches P fs ((x >>= f) fs).2 := by
  rw [GoState.bind_apply]
  have h₁ := hx fs
  rcases h : x fs with ⟨r, fs₁⟩
  rw [h] at h₁
  cases r with
  | ok a => exact h₁.trans (hf a fs₁)
  | error e => exact h₁
  | panic p => exact h₁

theorem call_of_ok {op name : String} {effect : FS → Go Unit × FS} {fs fs' : FS}
    (h : call op name effect fs = (.ok (), fs')) :
    fs.fault fs.calls = none ∧ effect { fs with calls := fs.calls + 1 } = (.ok (), fs') := by
  unfold call at h
  split at h
  · cases h
  · rename_i hf
    exact ⟨hf, h⟩

theorem create_of_ok {name : String} {fs fs' : FS} (h : create name fs = (.ok (), fs')) :
    fs'.files name = some [] := by
  obtain ⟨-, h⟩ := call_of_ok h
  cases h
  simp

theorem write_of_ok {name : String} {bytes : List UInt8} {fs fs' : FS}
    (h : write name bytes fs = (.ok (), fs')) :
    fs'.files name = some ((fs.files name).getD [] ++ bytes) := by
  obtain ⟨-, h⟩ := call_of_ok h
  cases h
  simp

theorem close_of_ok {name : String} {fs fs' : FS} (h : close name fs = (.ok (), fs')) :
    fs'.files = fs.files := by
  obtain ⟨-, h⟩ := call_of_ok h
  cases h
  rfl

theorem readAll_of_ok {name : String} {fs fs' : FS} {c : List UInt8}
    (h : readAll name fs = (.ok c, fs')) : fs.files name = some c ∧ fs'.files = fs.files := by
  unfold readAll at h
  split at h
  · rename_i fs'' hc
    obtain ⟨-, hc⟩ := call_of_ok hc
    cases hc
    split at h
    · rename_i c' hfile
      cases h
      exact ⟨hfile, rfl⟩
    · cases h
  · cases h
  · cases h

/-! ## A directory without faults -/

/-- No call on the directory fails. -/
def NoFaults (fs : FS) : Prop := ∀ n, fs.fault n = none

/-- A call on a directory without faults has its effect. -/
theorem call_of_noFaults {op name : String} {effect : FS → Go Unit × FS} {fs : FS}
    (h : fs.NoFaults) : call op name effect fs = effect { fs with calls := fs.calls + 1 } := by
  unfold call
  rw [h]

theorem create_of_noFaults (name : String) {fs : FS} (h : fs.NoFaults) :
    ∃ fs', create name fs = (.ok (), fs') ∧ fs'.NoFaults :=
  ⟨_, call_of_noFaults h, h⟩

theorem write_of_noFaults (name : String) (bytes : List UInt8) {fs : FS} (h : fs.NoFaults) :
    ∃ fs', write name bytes fs = (.ok (), fs') ∧ fs'.NoFaults :=
  ⟨_, call_of_noFaults h, h⟩

theorem close_of_noFaults (name : String) {fs : FS} (h : fs.NoFaults) :
    ∃ fs', close name fs = (.ok (), fs') ∧ fs'.NoFaults :=
  ⟨_, call_of_noFaults h, h⟩

/-- Reading an existing file from a directory without faults gives its contents. -/
theorem readAll_of_noFaults {name : String} {fs : FS} {c : List UInt8} (h : fs.NoFaults)
    (hc : fs.files name = some c) : ∃ fs', readAll name fs = (.ok c, fs') ∧ fs'.NoFaults := by
  refine ⟨{ fs with calls := fs.calls + 1 }, ?_, h⟩
  unfold readAll
  rw [call_of_noFaults h]
  simp only [hc]

end FS
