import Mathlib.Algebra.Order.Field.Rat
import Mathlib.Algebra.Order.Field.Power
import Mathlib.Tactic.Ring
import Mathlib.Tactic.Positivity

/-!
# IEEE-754 bit patterns, decoded

A binary floating-point bit pattern denotes NaN, an infinity, or a dyadic rational `m * 2 ^ e`.
`decode fmt n` reads the pattern `n` of the format `fmt` (`binary32`, `binary64`), keeping the
finite values as an integer mantissa and exponent so that the kernel evaluates them by `decide`;
`Value.toRat` is their meaning.

Two operations of a language's float semantics are given on top of it:

* `Value.gtInt v c` — the comparison `v > c` against an integer constant, false on NaN
  (`gtInt_iff`);
* `Value.truncInt v` — truncation toward zero of a finite value, the integer part that a
  float-to-integer conversion keeps;
* `Value.order v w` — the order a comparison of two values sees, none when one is NaN.

`ofNat64 n` is the binary64 pattern of a natural number; below `2 ^ 53` it is exact
(`truncInt_ofNat64`).
-/

namespace IEEE

/-- A binary interchange format: the widths of its exponent and mantissa fields. -/
structure Format where
  expBits : Nat
  mantBits : Nat

def binary32 : Format := ⟨8, 23⟩
def binary64 : Format := ⟨11, 52⟩

/-- What a bit pattern denotes; a finite value is `m * 2 ^ e`. -/
inductive Value
  | nan
  | inf (neg : Bool)
  | finite (m : ℤ) (e : ℤ)
deriving DecidableEq, Repr

/-- Decode the bit pattern `n` of the format `fmt`: sign, biased exponent, fraction. -/
def decode (fmt : Format) (n : Nat) : Value :=
  let neg : Bool := decide (2 ^ (fmt.expBits + fmt.mantBits) ≤ n)
  let sign : ℤ := if neg then -1 else 1
  let bias : ℤ := 2 ^ (fmt.expBits - 1) - 1
  let e : Nat := n / 2 ^ fmt.mantBits % 2 ^ fmt.expBits
  let m : Nat := n % 2 ^ fmt.mantBits
  if e = 2 ^ fmt.expBits - 1 then (if m = 0 then .inf neg else .nan)
  -- subnormal: no implicit leading bit, the exponent of the smallest normal
  else if e = 0 then .finite (sign * m) (1 - bias - fmt.mantBits)
  else .finite (sign * (2 ^ fmt.mantBits + m)) (e - bias - fmt.mantBits)

/-- `m * 2 ^ e` as an integer, rounded toward zero. -/
def scale (m : ℤ) (e : ℤ) : ℤ :=
  if 0 ≤ e then m * 2 ^ e.toNat else m.tdiv (2 ^ (-e).toNat)

namespace Value

/-- The real number a finite value denotes. -/
def toRat : Value → Option ℚ
  | .finite m e => some (m * 2 ^ e)
  | _ => none

/-- The comparison `v > c` with an integer constant `c`. -/
def gtInt (v : Value) (c : ℤ) : Bool :=
  match v with
  | .nan => false
  | .inf neg => !neg
  | .finite m e =>
    if 0 ≤ e then decide (c < m * 2 ^ e.toNat) else decide (c * 2 ^ (-e).toNat < m)

/-- Truncation toward zero of a finite value. -/
def truncInt : Value → Option ℤ
  | .finite m e => some (scale m e)
  | _ => none

theorem zpow_eq_pow_toNat {e : ℤ} (he : 0 ≤ e) : (2 : ℚ) ^ e = 2 ^ e.toNat := by
  rw [← zpow_natCast, Int.toNat_of_nonneg he]

theorem zpow_eq_inv_pow_toNat {e : ℤ} (he : e < 0) : (2 : ℚ) ^ e = ((2 : ℚ) ^ (-e).toNat)⁻¹ := by
  rw [← zpow_natCast, Int.toNat_of_nonneg (by omega), zpow_neg, inv_inv]

/-- On a finite value, `gtInt` is the comparison of the real numbers. -/
theorem gtInt_iff {m e : ℤ} (c : ℤ) : (finite m e).gtInt c ↔ (c : ℚ) < m * 2 ^ e := by
  by_cases he : 0 ≤ e
  · rw [gtInt, if_pos he, decide_eq_true_iff, zpow_eq_pow_toNat he]
    exact_mod_cast Iff.rfl
  · have hpos : (0 : ℚ) < 2 ^ (-e).toNat := pow_pos two_pos _
    rw [gtInt, if_neg he, decide_eq_true_iff, zpow_eq_inv_pow_toNat (by omega), ← div_eq_mul_inv,
      lt_div_iff₀ hpos]
    exact_mod_cast Iff.rfl

/-- The order of two values as an IEEE-754 comparison sees it: none when one is NaN, where
every comparison but `!=` is false; the infinities beyond every finite value; finite values by
the rationals they denote, so that the two zeros are equal. -/
def order : Value → Value → Option Ordering
  | .nan, _ | _, .nan => none
  | .inf a, .inf b => some (compare (!a) (!b))
  | .inf neg, .finite _ _ => some (if neg then .lt else .gt)
  | .finite _ _, .inf neg => some (if neg then .gt else .lt)
  | .finite m e, .finite m' e' => some (compareOfLessAndEq ((m : ℚ) * 2 ^ e) ((m' : ℚ) * 2 ^ e'))

/-- Two values compare equal exactly when they are the same infinity or denote the same
rational. -/
theorem order_eq_some_eq_iff {v w : Value} :
    v.order w = some .eq ↔
      (∃ neg, v = inf neg ∧ w = inf neg) ∨ ∃ q, v.toRat = some q ∧ w.toRat = some q := by
  cases v with
  | nan => simp [order, toRat]
  | inf a =>
    cases w with
    | nan => simp [order, toRat]
    | inf b => cases a <;> cases b <;> simp [order, toRat]
    | finite m e => cases a <;> simp [order, toRat]
  | finite m e =>
    cases w with
    | nan => simp [order, toRat]
    | inf b => cases b <;> simp [order, toRat]
    | finite m' e' =>
      rw [order, Option.some.injEq, compareOfLessAndEq_eq_eq le_refl not_le]
      simp only [toRat, reduceCtorEq, and_false, exists_false, Option.some.injEq, false_or]
      exact ⟨fun h => ⟨_, rfl, h.symm⟩, fun ⟨q, hq, hq'⟩ => hq.trans hq'.symm⟩

/-- IEEE equality is symmetric. -/
theorem order_eq_some_eq_comm {v w : Value} : v.order w = some .eq ↔ w.order v = some .eq := by
  rw [order_eq_some_eq_iff, order_eq_some_eq_iff]
  constructor <;> rintro (⟨neg, hv, hw⟩ | ⟨q, hv, hw⟩)
  all_goals first | exact .inl ⟨neg, hw, hv⟩ | exact .inr ⟨q, hw, hv⟩

/-- IEEE equality is transitive; it is not reflexive, as NaN equals nothing. -/
theorem order_eq_some_eq_trans {u v w : Value} (huv : u.order v = some .eq)
    (hvw : v.order w = some .eq) : u.order w = some .eq := by
  rw [order_eq_some_eq_iff] at huv hvw ⊢
  rcases huv with ⟨neg, rfl, rfl⟩ | ⟨q, hu, hv⟩
  · rcases hvw with ⟨neg', hv, rfl⟩ | ⟨q', hv, -⟩
    · exact .inl ⟨neg, rfl, hv.symm⟩
    · simp [toRat] at hv
  · rcases hvw with ⟨neg', rfl, -⟩ | ⟨q', hv', hw⟩
    · simp [toRat] at hv
    · rw [hv, Option.some.injEq] at hv'
      exact .inr ⟨q, hu, hv' ▸ hw⟩

end Value

/-! ## Naturals as binary64 -/

/-- The binary64 bit pattern of a natural number, exact below `2 ^ 53`: the exponent is the
position of the leading bit, the fraction the bits below it. -/
def ofNat64 (n : Nat) : Nat :=
  if n = 0 then 0 else (1023 + n.log2) * 2 ^ 52 + (n * 2 ^ (52 - n.log2) - 2 ^ 52)

theorem scale_zero (e : ℤ) : scale 0 e = 0 := by
  unfold scale
  split <;> simp

/-- Below `2 ^ 53`, `ofNat64 n` denotes `n` exactly, as `(n * 2 ^ j) * 2 ^ (-j)`. -/
theorem decode_ofNat64 {n : Nat} (hn : n < 2 ^ 53) :
    ∃ j : Nat, decode binary64 (ofNat64 n) = .finite (n * 2 ^ j) (-(j : ℤ)) := by
  by_cases h0 : n = 0
  · -- zero is the subnormal with the smallest exponent
    subst h0
    refine ⟨1074, ?_⟩
    simp only [ofNat64, if_true, decode, binary64, Nat.zero_div, Nat.zero_mod, Nat.cast_zero,
      zero_mul]
    decide
  set k := n.log2 with hk
  have hk52 : k ≤ 52 := by
    have := Nat.log2_lt h0 |>.mpr hn
    omega
  have hlo : 2 ^ k ≤ n := Nat.log2_self_le h0
  have hhi : n < 2 ^ (k + 1) := Nat.lt_log2_self
  have hsplit : 2 ^ 52 = 2 ^ k * 2 ^ (52 - k) := by rw [← pow_add]; congr 1; omega
  have hsplit' : 2 ^ 53 = 2 ^ (k + 1) * 2 ^ (52 - k) := by rw [← pow_add]; congr 1; omega
  have hm_lo : 2 ^ 52 ≤ n * 2 ^ (52 - k) := by rw [hsplit]; exact Nat.mul_le_mul_right _ hlo
  have hm_hi : n * 2 ^ (52 - k) < 2 ^ 53 := by
    rw [hsplit']; exact Nat.mul_lt_mul_of_pos_right hhi (Nat.two_pow_pos _)
  have hx : ofNat64 n = (1023 + k) * 2 ^ 52 + (n * 2 ^ (52 - k) - 2 ^ 52) := by
    rw [ofNat64, if_neg h0]
  have hr : n * 2 ^ (52 - k) - 2 ^ 52 < 2 ^ 52 := by omega
  have hexp : ofNat64 n / 2 ^ 52 % 2 ^ 11 = 1023 + k := by
    rw [hx, Nat.add_comm, Nat.add_mul_div_right _ _ (Nat.two_pow_pos 52), Nat.div_eq_of_lt hr]
    omega
  have hman : ofNat64 n % 2 ^ 52 = n * 2 ^ (52 - k) - 2 ^ 52 := by
    rw [hx, Nat.add_comm, Nat.add_mul_mod_self_right, Nat.mod_eq_of_lt hr]
  have hsign : ¬ 2 ^ (11 + 52) ≤ ofNat64 n := by
    have : (1023 + k + 1) * 2 ^ 52 ≤ 2 ^ 11 * 2 ^ 52 := Nat.mul_le_mul_right _ (by omega)
    rw [Nat.add_mul, one_mul] at this
    rw [pow_add, hx]
    omega
  -- the implicit leading bit and the fraction together are `n` shifted up by `52 - k`
  have hm : ((2 : ℤ) ^ 52 + ((n * 2 ^ (52 - k) - 2 ^ 52 : ℕ) : ℤ)) = (n : ℤ) * 2 ^ (52 - k) := by
    rw [Nat.cast_sub hm_lo]
    push_cast
    ring
  have he : ((1023 + k : ℕ) : ℤ) - (2 ^ (11 - 1) - 1) - ((52 : ℕ) : ℤ) = -((52 - k : ℕ) : ℤ) := by
    push_cast [Nat.cast_sub hk52]
    ring
  refine ⟨52 - k, ?_⟩
  simp only [decode, binary64, hexp, hman, hsign, decide_false, Bool.false_eq_true, if_false,
    one_mul]
  rw [if_neg (by omega), if_neg (by omega), hm, he]

/-- The pattern of a natural number below `2 ^ 53` has its sign bit clear. -/
theorem ofNat64_lt {n : Nat} (hn : n < 2 ^ 53) : ofNat64 n < 2 ^ 63 := by
  unfold ofNat64
  split
  · exact Nat.two_pow_pos 63
  · rename_i h0
    have hk : n.log2 < 53 := (Nat.log2_lt h0).mpr hn
    have hsub : n * 2 ^ (52 - n.log2) - 2 ^ 52 < 2 ^ 52 := by
      have hhi : n < 2 ^ (n.log2 + 1) := Nat.lt_log2_self
      have : n * 2 ^ (52 - n.log2) < 2 ^ (n.log2 + 1) * 2 ^ (52 - n.log2) :=
        Nat.mul_lt_mul_of_pos_right hhi (Nat.two_pow_pos _)
      rw [← pow_add, show n.log2 + 1 + (52 - n.log2) = 53 by omega] at this
      omega
    have : (1023 + n.log2 + 1) * 2 ^ 52 ≤ 2 ^ 11 * 2 ^ 52 := Nat.mul_le_mul_right _ (by omega)
    rw [Nat.add_mul, one_mul, ← pow_add] at this
    omega

theorem scale_mul_two_pow (n : ℤ) (j : Nat) : scale (n * 2 ^ j) (-(j : ℤ)) = n := by
  unfold scale
  split
  · rename_i hj
    have : j = 0 := by omega
    subst this
    simp
  · rw [neg_neg, Int.toNat_natCast, Int.mul_tdiv_cancel _ (by positivity)]

/-- A natural number below `2 ^ 53` survives the trip through binary64 and truncation. -/
theorem truncInt_ofNat64 {n : Nat} (hn : n < 2 ^ 53) :
    (decode binary64 (ofNat64 n)).truncInt = some (n : ℤ) := by
  obtain ⟨j, hj⟩ := decode_ofNat64 hn
  rw [hj, Value.truncInt, scale_mul_two_pow]

/-- Comparing the binary64 pattern of a natural number is comparing the number. -/
theorem gtInt_ofNat64 {n : Nat} (hn : n < 2 ^ 53) (c : ℤ) :
    (decode binary64 (ofNat64 n)).gtInt c ↔ c < n := by
  obtain ⟨j, hj⟩ := decode_ofNat64 hn
  have hpow : (2 : ℚ) ^ j * 2 ^ (-(j : ℤ)) = 1 := by
    rw [zpow_neg, zpow_natCast, mul_inv_cancel₀ (by positivity)]
  rw [hj, Value.gtInt_iff]
  push_cast
  rw [mul_assoc, hpow, mul_one]
  exact_mod_cast Iff.rfl

end IEEE
