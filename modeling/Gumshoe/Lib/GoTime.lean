import Mathlib.Algebra.Order.Group.Int
import Mathlib.Tactic.LinearCombination

/-!
# Go's `time.Time`, as nanoseconds

An instant is an integer, the number of nanoseconds since the Unix epoch, and a duration is an
integer number of nanoseconds; both are unbounded here (Go's `time.Time` covers far more than the
years a database sees). What a time-bucketed store needs from Go's package is:

* `unix sec` and `toUnix t` — `time.Unix(sec, 0)` and `t.Unix()`;
* `truncate t d` — `t.Truncate(d)`, which rounds down to a multiple of `d` counted from Go's zero
  time (January 1 of year 1), not from the epoch;
* `since now t` — `time.Since(t)` at the clock reading `now`.

The lemmas say that the buckets `truncate` gives start at multiples of `d` from the zero time
(`dvd_truncate_add`), and that every instant of a bucket truncates to its start
(`truncate_eq_of_mem`).
-/

namespace GoTime

/-- Nanoseconds from Go's zero time, January 1 of year 1 UTC, to the Unix epoch. -/
def unixToInternal : ℤ := 62135596800 * 1000000000

/-- `time.Unix(sec, 0)`. -/
def unix (sec : ℤ) : ℤ := sec * 1000000000

/-- `t.Unix()`: whole seconds since the epoch, rounded down. -/
def toUnix (t : ℤ) : ℤ := t / 1000000000

/-- `t.Truncate(d)`: `t` rounded down to a multiple of `d` since the zero time; `t` itself when
`d ≤ 0`. -/
def truncate (t d : ℤ) : ℤ :=
  if d ≤ 0 then t else t - (t + unixToInternal) % d

/-- `time.Since(t)` when the clock reads `now`. -/
def since (now t : ℤ) : ℤ := now - t

@[simp] theorem toUnix_unix (sec : ℤ) : toUnix (unix sec) = sec := by
  simp [toUnix, unix]

section Truncate

variable {d : ℤ} (t : ℤ)

theorem truncate_of_pos (hd : 0 < d) : truncate t d = t - (t + unixToInternal) % d := by
  rw [truncate, if_neg (by omega)]

/-- Bucket starts are multiples of `d` from the zero time. -/
theorem dvd_truncate_add (hd : 0 < d) : d ∣ truncate t d + unixToInternal := by
  rw [truncate_of_pos t hd]
  have h := Int.emod_add_mul_ediv (t + unixToInternal) d
  exact ⟨(t + unixToInternal) / d, by linear_combination -h⟩

/-- Every instant of a bucket truncates to the bucket's start. -/
theorem truncate_eq_of_mem {s : ℤ} (hd : 0 < d) (hs : d ∣ s + unixToInternal)
    (hlo : s ≤ t) (hhi : t < s + d) : truncate t d = s := by
  obtain ⟨q, hq⟩ := hs
  rw [truncate_of_pos t hd]
  have hmod : (t + unixToInternal) % d = t - s := by
    have : t + unixToInternal = (t - s) + d * q := by linear_combination hq
    rw [this, Int.add_mul_emod_self_left, Int.emod_eq_of_lt (by omega) (by omega)]
  omega

end Truncate

end GoTime
