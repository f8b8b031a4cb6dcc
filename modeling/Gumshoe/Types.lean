import Gumshoe.Lib.Bytes
import Gumshoe.Lib.IEEE

/-!
# Column types, Go values and cells

`type_gen.go` is generated from one template per operation, instantiated for the ten column
types. Here each generated family is one definition by cases on `ColType` (Go's `Type`):

* `typeWidths`, `typeMaxes`, `typeNames`, `nameToType`, `typeToBigType` — the tables;
* `setRowValue` — store the Go conversion `T(value)` of a JSON `float64` into a cell;
* `numericCellValue` — read a cell back as a typed Go value (`Untyped`);
* `addCell` — `*(*T)(col1) + *(*T)(col2)`, the addition `MetricBytes.add` does per column.

A JSON number is kept as its `float64` bit pattern (`F64`), decoded by `IEEE.decode`, so that
comparisons against `typeMaxes` and conversions evaluate by `decide`.

On integer columns a cell holds the low `8 * width` bits of the truncated value
(`setRowValue_bits`); read back, that is the value wrapped into the column type
(`toInt?_numericCellValue_setRowValue`), which is the value itself when the type can represent it
(`wrapInt_of_representable`). Cell additions are additions modulo `2 ^ (8 * width)`
(`decodeLE_addCell`).
-/

namespace Gumshoe

open Bytes

/-! ## JSON numbers -/

/-- A Go `float64`, kept as its bit pattern. -/
structure F64 where
  bits : UInt64
deriving DecidableEq, Repr

namespace F64

/-- What the bit pattern denotes. -/
def value (f : F64) : IEEE.Value := IEEE.decode IEEE.binary64 f.bits.toNat

/-- `float64(n)` of a natural number, exact below `2 ^ 53`. -/
def ofNat (n : Nat) : F64 := ⟨UInt64.ofNat (IEEE.ofNat64 n)⟩

theorem value_ofNat {n : Nat} (hn : n < 2 ^ 53) :
    (ofNat n).value = IEEE.decode IEEE.binary64 (IEEE.ofNat64 n) := by
  have hlt : IEEE.ofNat64 n < 2 ^ 64 := lt_trans (IEEE.ofNat64_lt hn) (by decide)
  rw [value, ofNat, UInt64.toNat_ofNat', Nat.mod_eq_of_lt hlt]

/-- Neither NaN nor an infinity. -/
def isFinite (f : F64) : Bool :=
  match f.value with
  | .finite _ _ => true
  | _ => false

end F64

/-! ## Column types -/

/-- `Type`: the ten column types, in the order of their constants. -/
inductive ColType
  | uint8 | int8 | uint16 | int16 | uint32 | int32 | float32 | uint64 | int64 | float64
deriving DecidableEq, Repr

namespace ColType

def isFloat : ColType → Bool
  | float32 | float64 => true
  | _ => false

def isSigned : ColType → Bool
  | int8 | int16 | int32 | int64 => true
  | _ => false

end ColType

/-- `typeWidths`: the size in bytes of a cell. -/
def typeWidths : ColType → Nat
  | .uint8 | .int8 => 1
  | .uint16 | .int16 => 2
  | .uint32 | .int32 | .float32 => 4
  | .uint64 | .int64 | .float64 => 8

/-- `typeMaxes`, as the `float64` constants denote them: `math.MaxUint64` and `math.MaxInt64`
round to `2 ^ 64` and `2 ^ 63`, the others are exact. -/
def typeMaxes : ColType → ℤ
  | .uint8 => 255
  | .int8 => 127
  | .uint16 => 65535
  | .int16 => 32767
  | .uint32 => 4294967295
  | .int32 => 2147483647
  | .float32 => (2 ^ 24 - 1) * 2 ^ 104
  | .uint64 => 2 ^ 64
  | .int64 => 2 ^ 63
  | .float64 => (2 ^ 53 - 1) * 2 ^ 971

/-- `typeNames`, also Go's `Type.String`. -/
def typeNames : ColType → String
  | .uint8 => "uint8"
  | .int8 => "int8"
  | .uint16 => "uint16"
  | .int16 => "int16"
  | .uint32 => "uint32"
  | .int32 => "int32"
  | .float32 => "float32"
  | .uint64 => "uint64"
  | .int64 => "int64"
  | .float64 => "float64"

/-- `NameToType`. -/
def nameToType (s : String) : Option ColType :=
  [ColType.uint8, .int8, .uint16, .int16, .uint32, .int32, .float32, .uint64, .int64,
    .float64].find? (typeNames · = s)

/-- `TypeToBigType`: the 64-bit type a query sums a column in. -/
def typeToBigType : ColType → ColType
  | .uint8 | .uint16 | .uint32 | .uint64 => .uint64
  | .int8 | .int16 | .int32 | .int64 => .int64
  | .float32 | .float64 => .float64

theorem nameToType_typeNames (t : ColType) : nameToType (typeNames t) = some t := by
  cases t <;> decide

theorem typeWidths_pos (t : ColType) : 0 < typeWidths t := by
  cases t <;> decide

/-! ## Integer cells -/

/-- The integer `v` in the integer column type `t`: its low `8 * width` bits, read as two's
complement when `t` is signed. -/
def wrapInt (t : ColType) (v : ℤ) : ℤ :=
  if t.isSigned then v.bmod (2 ^ (8 * typeWidths t)) else v % 2 ^ (8 * typeWidths t)

/-- `v` lies in the range of the integer type `t`. -/
def Representable (t : ColType) (v : ℤ) : Prop :=
  if t.isSigned then -2 ^ (8 * typeWidths t - 1) ≤ v ∧ v < 2 ^ (8 * typeWidths t - 1)
  else 0 ≤ v ∧ v < 2 ^ (8 * typeWidths t)

instance (t : ColType) (v : ℤ) : Decidable (Representable t v) := by
  unfold Representable; infer_instance

theorem wrapInt_of_representable {t : ColType} {v : ℤ} (h : Representable t v) :
    wrapInt t v = v := by
  unfold Representable at h
  unfold wrapInt
  have hw := typeWidths_pos t
  split
  · rename_i hs
    rw [if_pos hs] at h
    -- the balanced residue of `v` is `v` itself on `[-2 ^ (8w - 1), 2 ^ (8w - 1))`
    have hpow : (2 : ℤ) ^ (8 * typeWidths t) = 2 * 2 ^ (8 * typeWidths t - 1) := by
      rw [← pow_succ']; congr 1; omega
    apply Int.bmod_eq_of_le
    · push_cast; rw [hpow]; omega
    · push_cast; rw [hpow]; omega
  · rename_i hs
    rw [if_neg hs] at h
    exact Int.emod_eq_of_lt h.1 h.2

/-- Wrapping only depends on the low bits. -/
theorem wrapInt_emod (t : ColType) (v : ℤ) : wrapInt t (v % 2 ^ (8 * typeWidths t)) = wrapInt t v := by
  unfold wrapInt
  split
  · exact_mod_cast Int.emod_bmod v (2 ^ (8 * typeWidths t))
  · exact Int.emod_emod_of_dvd v dvd_rfl

/-! ## Go values -/

/-- `Untyped`: a Go value held in an `interface{}`. JSON decoding gives `nil`, `float64` and
`string` (and other kinds, which no column accepts); reading cells gives the typed values. -/
inductive Untyped
  | nil
  | float64 (f : F64)
  | string (s : String)
  /-- a JSON boolean, array or object -/
  | other
  | uint8 (n : UInt8)
  | int8 (n : Int8)
  | uint16 (n : UInt16)
  | int16 (n : Int16)
  | uint32 (n : UInt32)
  | int32 (n : Int32)
  | float32 (bits : UInt32)
  | uint64 (n : UInt64)
  | int64 (n : Int64)
  | int (n : Int64)
deriving DecidableEq, Repr

/-- The integer a value of an integer type holds. -/
def Untyped.toInt? : Untyped → Option ℤ
  | .uint8 n => some n.toNat
  | .int8 n => some n.toInt
  | .uint16 n => some n.toNat
  | .int16 n => some n.toInt
  | .uint32 n => some n.toNat
  | .int32 n => some n.toInt
  | .uint64 n => some n.toNat
  | .int64 n => some n.toInt
  | .int n => some n.toInt
  | _ => none

/-! ## Cells -/

/-- The bit pattern of `T(value)` for the column type `T`. Integer conversions truncate toward
zero and keep the low bits; Go leaves a value outside the type's range to the implementation, and
the model keeps the low bits of the truncated value there too (NaN and infinities give 0). -/
def convertFloat (typ : ColType) (value : F64) : Nat :=
  match typ with
  | .float32 => (Float.ofBits value.bits).toFloat32.toBits.toNat
  | .float64 => value.bits.toNat
  | t => (value.value.truncInt.getD 0 % 2 ^ (8 * typeWidths t)).toNat

/-- `setRowValue(pos, typ, value)`: `*(*T)(pos) = T(value)`. -/
def setRowValue (buf : List UInt8) (pos : Nat) (typ : ColType) (value : F64) : List UInt8 :=
  writeAt buf pos (encodeLE (typeWidths typ) (convertFloat typ value))

/-- The Go value of type `typ` with bit pattern `n`. -/
def ofCellBits (typ : ColType) (n : Nat) : Untyped :=
  match typ with
  | .uint8 => .uint8 (UInt8.ofNat n)
  | .int8 => .int8 (Int8.ofNat n)
  | .uint16 => .uint16 (UInt16.ofNat n)
  | .int16 => .int16 (Int16.ofNat n)
  | .uint32 => .uint32 (UInt32.ofNat n)
  | .int32 => .int32 (Int32.ofNat n)
  | .float32 => .float32 (UInt32.ofNat n)
  | .uint64 => .uint64 (UInt64.ofNat n)
  | .int64 => .int64 (Int64.ofNat n)
  | .float64 => .float64 ⟨UInt64.ofNat n⟩

/-- The bit pattern of the cell of type `typ` at `pos`. -/
def cellBits (buf : List UInt8) (pos : Nat) (typ : ColType) : Nat :=
  decodeLE (readAt buf pos (typeWidths typ))

/-- `NumericCellValue(cell, typ)`: `*(*T)(cell)`. -/
def numericCellValue (buf : List UInt8) (pos : Nat) (typ : ColType) : Untyped :=
  ofCellBits typ (cellBits buf pos typ)

/-- `*(*T)(col1) + *(*T)(col2)`: addition in the column's own type. -/
def addCell (typ : ColType) (a b : List UInt8) : List UInt8 :=
  match typ with
  | .float32 =>
    encodeLE 4 (Float32.ofBits (UInt32.ofNat (decodeLE a)) +
      Float32.ofBits (UInt32.ofNat (decodeLE b))).toBits.toNat
  | .float64 =>
    encodeLE 8 (Float.ofBits (UInt64.ofNat (decodeLE a)) +
      Float.ofBits (UInt64.ofNat (decodeLE b))).toBits.toNat
  | t => encodeLE (typeWidths t) (decodeLE a + decodeLE b)

theorem two_pow_eq_256_pow (w : Nat) : 2 ^ (8 * w) = 256 ^ w := by
  rw [pow_mul]; rfl

@[simp] theorem length_addCell (typ : ColType) (a b : List UInt8) :
    (addCell typ a b).length = typeWidths typ := by
  cases typ <;> simp [addCell, typeWidths]

theorem length_setRowValue {buf : List UInt8} {pos : Nat} {typ : ColType}
    (h : pos + typeWidths typ ≤ buf.length) (value : F64) :
    (setRowValue buf pos typ value).length = buf.length :=
  length_writeAt (by simpa using h)

section Integer

variable {typ : ColType} (hint : typ.isFloat = false)
include hint

theorem convertFloat_of_int (value : F64) :
    convertFloat typ value = (value.value.truncInt.getD 0 % 2 ^ (8 * typeWidths typ)).toNat := by
  cases typ <;> first | rfl | cases hint

/-- On integer columns, a stored cell holds the low bits of the truncated value. -/
theorem setRowValue_bits {buf : List UInt8} {pos : Nat} (h : pos + typeWidths typ ≤ buf.length)
    (value : F64) :
    (cellBits (setRowValue buf pos typ value) pos typ : ℤ) =
      value.value.truncInt.getD 0 % 2 ^ (8 * typeWidths typ) := by
  have hread := @readAt_writeAt_self UInt8 buf pos (encodeLE (typeWidths typ) (convertFloat typ value))
    (by simpa using h)
  rw [length_encodeLE] at hread
  have hpos : (0 : ℤ) < 2 ^ (8 * typeWidths typ) := by positivity
  have hnn := Int.emod_nonneg (value.value.truncInt.getD 0) hpos.ne'
  have hlt := Int.emod_lt_of_pos (value.value.truncInt.getD 0) hpos
  have hlt' : (value.value.truncInt.getD 0 % 2 ^ (8 * typeWidths typ)).toNat <
      2 ^ (8 * typeWidths typ) := by
    have hc : ((2 ^ (8 * typeWidths typ) : ℕ) : ℤ) = 2 ^ (8 * typeWidths typ) := by push_cast; rfl
    omega
  rw [cellBits, setRowValue, hread, decodeLE_encodeLE, convertFloat_of_int hint,
    ← two_pow_eq_256_pow, Nat.mod_eq_of_lt hlt', Int.toNat_of_nonneg hnn]

/-- Read back, a cell of an integer type is the bit pattern wrapped into the type. -/
theorem toInt?_ofCellBits {n : Nat} (hn : n < 2 ^ (8 * typeWidths typ)) :
    (ofCellBits typ n).toInt? = some (wrapInt typ n) := by
  cases typ <;> (try cases hint) <;>
    simp_all [ofCellBits, Untyped.toInt?, wrapInt, ColType.isSigned, typeWidths, Int8.size,
      Int16.size, Int32.size, Int64.size]

/-- The round trip of a cell: `NumericCellValue` after `setRowValue` gives `T(value)`. -/
theorem toInt?_numericCellValue_setRowValue {buf : List UInt8} {pos : Nat}
    (h : pos + typeWidths typ ≤ buf.length) (value : F64) :
    (numericCellValue (setRowValue buf pos typ value) pos typ).toInt? =
      some (wrapInt typ (value.value.truncInt.getD 0)) := by
  have hbits := setRowValue_bits hint h value
  have hpos : (0 : ℤ) < 2 ^ (8 * typeWidths typ) := by positivity
  have hlt : cellBits (setRowValue buf pos typ value) pos typ < 2 ^ (8 * typeWidths typ) := by
    have := Int.emod_lt_of_pos (value.value.truncInt.getD 0) hpos
    rw [← hbits] at this
    exact_mod_cast this
  rw [numericCellValue, toInt?_ofCellBits hint hlt, hbits, wrapInt_emod]

/-- Cell addition on an integer column is addition modulo `2 ^ (8 * width)`. -/
theorem decodeLE_addCell (a b : List UInt8) :
    decodeLE (addCell typ a b) = (decodeLE a + decodeLE b) % 2 ^ (8 * typeWidths typ) := by
  rw [two_pow_eq_256_pow]
  cases typ <;> simp only [ColType.isFloat, Bool.true_eq_false] at hint <;>
    simp [addCell, decodeLE_encodeLE, typeWidths]

end Integer

end Gumshoe
