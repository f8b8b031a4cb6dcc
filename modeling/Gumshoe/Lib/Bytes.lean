import Mathlib.Data.List.TakeDrop
import Mathlib.Data.Nat.Bitwise
import Mathlib.Data.UInt

/-!
# Byte buffers with fixed-width cells

A record format that packs typed columns into a flat byte buffer needs three things, developed
here over `List UInt8`:

* `encodeLE w n` — the `w` little-endian bytes of `n`, bits above `8 * w` dropped; `decodeLE`
  reads a cell back (`decodeLE_encodeLE`, `encodeLE_decodeLE`).
* `writeAt buf off bs` and `readAt buf off w` — overwrite a window and read one. A read sees the
  write when the windows coincide and does not see it when they are disjoint.
* `setBit buf i` and `testBit buf i` — bit `i` of a bit vector held in the leading bytes, byte
  `i / 8`, bit `i % 8` within it.
* `offsets start ws` — where consecutive cells of widths `ws` start; they do not overlap
  (`offsets_add_le_of_lt`) and end by `start + ws.sum` (`offsets_add_le_sum`). `tile start ws`
  is the same cells as ranges; they come in order (`tile_pairwise`) and cover exactly
  `[start, start + ws.sum)` (`exists_mem_tile_iff`).
-/

namespace Bytes

/-! ## Little-endian cells -/

/-- The `w` little-endian bytes of `n`; bits above `8 * w` are dropped. -/
def encodeLE : Nat → Nat → List UInt8
  | 0, _ => []
  | w + 1, n => UInt8.ofNat n :: encodeLE w (n / 256)

/-- The natural number whose little-endian bytes these are. -/
def decodeLE : List UInt8 → Nat
  | [] => 0
  | b :: bs => b.toNat + 256 * decodeLE bs

@[simp] theorem length_encodeLE (w n : Nat) : (encodeLE w n).length = w := by
  induction w generalizing n with
  | zero => rfl
  | succ w ih => simp [encodeLE, ih]

theorem decodeLE_lt (bs : List UInt8) : decodeLE bs < 256 ^ bs.length := by
  induction bs with
  | nil => simp [decodeLE]
  | cons b bs ih =>
    have hb := b.toNat_lt
    simp only [decodeLE, List.length_cons, pow_succ]
    omega

/-- Reading a cell back gives the value modulo the cell's range. -/
theorem decodeLE_encodeLE (w n : Nat) : decodeLE (encodeLE w n) = n % 256 ^ w := by
  induction w generalizing n with
  | zero => simp [encodeLE, decodeLE, Nat.mod_one]
  | succ w ih =>
    rw [encodeLE, decodeLE, ih, UInt8.toNat_ofNat', show (2 : Nat) ^ 8 = 256 from rfl,
      show 256 ^ (w + 1) = 256 * 256 ^ w from Nat.pow_succ', Nat.mod_mul]

theorem decodeLE_encodeLE_of_lt {w n : Nat} (h : n < 256 ^ w) : decodeLE (encodeLE w n) = n := by
  rw [decodeLE_encodeLE, Nat.mod_eq_of_lt h]

theorem encodeLE_decodeLE (bs : List UInt8) : encodeLE bs.length (decodeLE bs) = bs := by
  induction bs with
  | nil => rfl
  | cons b bs ih =>
    have hb := b.toNat_lt
    have hdiv : (b.toNat + 256 * decodeLE bs) / 256 = decodeLE bs := by omega
    have hmod : UInt8.ofNat (b.toNat + 256 * decodeLE bs) = b := by
      apply UInt8.toNat.inj
      rw [UInt8.toNat_ofNat']
      omega
    simp only [List.length_cons, encodeLE, decodeLE, hdiv, hmod, ih]

/-! ## Windows -/

section Windows

variable {α : Type}

/-- Overwrite the bytes starting at `off` with `bs`. -/
def writeAt (buf : List α) (off : Nat) (bs : List α) : List α :=
  buf.take off ++ bs ++ buf.drop (off + bs.length)

/-- The `w` bytes starting at `off`. -/
def readAt (buf : List α) (off w : Nat) : List α :=
  (buf.drop off).take w

theorem length_writeAt {buf : List α} {off : Nat} {bs : List α}
    (h : off + bs.length ≤ buf.length) : (writeAt buf off bs).length = buf.length := by
  simp only [writeAt, List.length_append, List.length_take, List.length_drop]
  omega

theorem readAt_writeAt_self {buf : List α} {off : Nat} {bs : List α}
    (h : off + bs.length ≤ buf.length) : readAt (writeAt buf off bs) off bs.length = bs := by
  rw [readAt, writeAt, List.append_assoc, List.drop_append_of_le_length (by simp; omega),
    List.drop_eq_nil_of_le (by simp), List.nil_append, List.take_left' rfl]

/-- A window that ends before the write does not see it. -/
theorem readAt_writeAt_of_le {buf : List α} {off off' w : Nat} {bs : List α}
    (hb : off ≤ buf.length) (hw : off' + w ≤ off) :
    readAt (writeAt buf off bs) off' w = readAt buf off' w := by
  rw [readAt, readAt, writeAt, List.append_assoc, List.drop_append_of_le_length (by simp; omega),
    List.take_append_of_le_length (by simp; omega), List.drop_take, List.take_take,
    Nat.min_eq_left (by omega)]

/-- A window that starts after the write does not see it. -/
theorem readAt_writeAt_of_ge {buf : List α} {off off' w : Nat} {bs : List α}
    (h : off + bs.length ≤ buf.length) (hw : off + bs.length ≤ off') :
    readAt (writeAt buf off bs) off' w = readAt buf off' w := by
  have hl : (buf.take off ++ bs).length = off + bs.length := by simp; omega
  rw [readAt, readAt, writeAt, List.drop_append, hl, List.drop_eq_nil_of_le (by omega),
    List.nil_append, List.drop_drop]
  congr 2
  omega

/-- A window inside the first part of a concatenation reads that part. -/
theorem readAt_append_of_le {a b : List α} {off w : Nat} (h : off + w ≤ a.length) :
    readAt (a ++ b) off w = readAt a off w := by
  rw [readAt, readAt, List.drop_append_of_le_length (by omega),
    List.take_append_of_le_length (by simp; omega)]

/-- A window past the first part of a concatenation reads the second part. -/
theorem readAt_append_add (a b : List α) (off w : Nat) :
    readAt (a ++ b) (a.length + off) w = readAt b off w := by
  rw [readAt, readAt, List.drop_append, List.drop_eq_nil_of_le (by omega), List.nil_append]
  congr 2
  omega

/-- The window of a part of a concatenation, at that part's offset and width, is the part. -/
theorem readAt_append_self (a b c : List α) : readAt (a ++ b ++ c) a.length b.length = b := by
  rw [List.append_assoc, ← Nat.add_zero a.length, readAt_append_add,
    readAt_append_of_le (by simp)]
  simp [readAt]

end Windows

/-! ## Bits -/

/-- The mask of bit `j` of a byte. -/
def bitMask (j : Nat) : UInt8 := 1 <<< j.toUInt8

theorem toNat_bitMask {j : Nat} (hj : j < 8) : (bitMask j).toNat = 2 ^ j := by
  have hj' : j % 2 ^ 8 % 8 = j := by omega
  have hlt : 2 ^ j < 2 ^ 8 := Nat.pow_lt_pow_right (by decide) hj
  rw [bitMask, UInt8.toNat_shiftLeft, UInt8.toNat_ofNat', hj', UInt8.toNat_one,
    Nat.one_shiftLeft, Nat.mod_eq_of_lt hlt]

/-- Set bit `i` of the bit vector in the leading bytes: `d[i>>3] |= 1 << (i&7)`. -/
def setBit (buf : List UInt8) (i : Nat) : List UInt8 :=
  buf.modify (i / 8) (· ||| bitMask (i % 8))

/-- Bit `i` of the bit vector in the leading bytes: `d[i>>3] & (1 << (i&7)) > 0`. -/
def testBit (buf : List UInt8) (i : Nat) : Bool :=
  decide ((buf.getD (i / 8) 0 &&& bitMask (i % 8)) > 0)

theorem testBit_iff (buf : List UInt8) (i : Nat) :
    testBit buf i = (buf.getD (i / 8) 0).toNat.testBit (i % 8) := by
  have hmask := toNat_bitMask (Nat.mod_lt i (show 0 < 8 by decide))
  rw [testBit, Bool.eq_iff_iff, decide_eq_true_iff, gt_iff_lt, UInt8.lt_iff_toNat_lt,
    UInt8.toNat_and, hmask, Nat.and_two_pow]
  cases (buf.getD (i / 8) 0).toNat.testBit (i % 8)
  · simp
  · simp only [UInt8.toNat_zero, Bool.toNat_true, Nat.one_mul, iff_true]
    exact Nat.two_pow_pos (i % 8)

@[simp] theorem length_setBit (buf : List UInt8) (i : Nat) : (setBit buf i).length = buf.length :=
  List.length_modify ..

/-! ## Packed layouts -/

section Layout

/-- The offsets of consecutive cells of widths `ws`, the first at `start`. -/
def offsets : Nat → List Nat → List Nat
  | _, [] => []
  | start, w :: ws => start :: offsets (start + w) ws

@[simp] theorem length_offsets (start : Nat) (ws : List Nat) : (offsets start ws).length = ws.length := by
  induction ws generalizing start with
  | nil => rfl
  | cons w ws ih => simp [offsets, ih]

/-- Cell `i` starts after the widths of the cells before it. -/
theorem getD_offsets {start i : Nat} {ws : List Nat} (hi : i < ws.length) :
    (offsets start ws).getD i 0 = start + (ws.take i).sum := by
  induction ws generalizing start i with
  | nil => simp at hi
  | cons w ws ih =>
    cases i with
    | zero => simp [offsets]
    | succ i =>
      simp only [offsets, List.getD_cons_succ, List.take_succ_cons, List.sum_cons]
      rw [ih (by simpa using hi)]
      omega

theorem sum_take_add_getD (ws : List Nat) (i : Nat) :
    (ws.take i).sum + ws.getD i 0 = (ws.take (i + 1)).sum := by
  rw [List.take_add_one, List.sum_append, List.getD_eq_getElem?_getD]
  cases ws[i]? <;> simp

theorem sum_take_le_sum_take (ws : List Nat) {i j : Nat} (hij : i ≤ j) :
    (ws.take i).sum ≤ (ws.take j).sum := by
  have hsplit := congrArg List.sum (List.take_append_drop i (ws.take j))
  rw [List.take_take, Nat.min_eq_left hij, List.sum_append] at hsplit
  omega

/-- Cells are laid out one after the other: cell `i` ends before cell `j > i` starts. -/
theorem offsets_add_le_of_lt {start i j : Nat} {ws : List Nat} (hj : j < ws.length) (hij : i < j) :
    (offsets start ws).getD i 0 + ws.getD i 0 ≤ (offsets start ws).getD j 0 := by
  rw [getD_offsets (by omega), getD_offsets hj]
  have := sum_take_le_sum_take ws (show i + 1 ≤ j by omega)
  have := sum_take_add_getD ws i
  omega

/-- Every cell ends within `start + ws.sum`. -/
theorem offsets_add_le_sum {start i : Nat} {ws : List Nat} (hi : i < ws.length) :
    (offsets start ws).getD i 0 + ws.getD i 0 ≤ start + ws.sum := by
  rw [getD_offsets hi]
  have := sum_take_le_sum_take ws (show i + 1 ≤ ws.length by omega)
  have := sum_take_add_getD ws i
  rw [List.take_length] at *
  omega

theorem le_offsets {start i : Nat} {ws : List Nat} (hi : i < ws.length) :
    start ≤ (offsets start ws).getD i 0 := by
  rw [getD_offsets hi]
  omega

/-- The cells of widths `ws` as `[start, stop)` ranges, laid end to end from `start`. -/
def tile : Nat → List Nat → List (Nat × Nat)
  | _, [] => []
  | start, w :: ws => (start, start + w) :: tile (start + w) ws

/-- The ranges that start at the offsets, shifted by `a`, are the tiling from `a + start`. -/
theorem zipWith_offsets (a : Nat) : ∀ (start : Nat) (ws : List Nat),
    List.zipWith (fun o w => (a + o, a + o + w)) (offsets start ws) ws = tile (a + start) ws
  | _, [] => rfl
  | start, w :: ws => by
    rw [offsets, List.zipWith_cons_cons, tile, zipWith_offsets a (start + w) ws, Nat.add_assoc]

theorem tile_append (start : Nat) (ws vs : List Nat) :
    tile start (ws ++ vs) = tile start ws ++ tile (start + ws.sum) vs := by
  induction ws generalizing start with
  | nil => simp [tile]
  | cons w ws ih => simp [tile, ih, Nat.add_assoc]

/-- Every range of a tiling lies within `[start, start + ws.sum)`. -/
theorem bounds_of_mem_tile {start : Nat} {ws : List Nat} {c : Nat × Nat} (h : c ∈ tile start ws) :
    start ≤ c.1 ∧ c.1 ≤ c.2 ∧ c.2 ≤ start + ws.sum := by
  induction ws generalizing start with
  | nil => simp [tile] at h
  | cons w ws ih =>
    rw [tile, List.mem_cons] at h
    rcases h with rfl | h
    · simp
    · have := ih h
      rw [List.sum_cons]
      omega

/-- The ranges of a tiling come in order, each ending where or before the next one starts. -/
theorem tile_pairwise (start : Nat) (ws : List Nat) :
    (tile start ws).Pairwise fun a b => a.2 ≤ b.1 := by
  induction ws generalizing start with
  | nil => exact List.Pairwise.nil
  | cons w ws ih => exact List.pairwise_cons.mpr ⟨fun c hc => (bounds_of_mem_tile hc).1, ih _⟩

/-- The ranges of a tiling cover exactly `[start, start + ws.sum)`. -/
theorem exists_mem_tile_iff {start p : Nat} {ws : List Nat} :
    (∃ c ∈ tile start ws, c.1 ≤ p ∧ p < c.2) ↔ start ≤ p ∧ p < start + ws.sum := by
  constructor
  · rintro ⟨c, hc, h₁, h₂⟩
    have := bounds_of_mem_tile hc
    omega
  · induction ws generalizing start with
    | nil =>
      intro h
      simp at h
      omega
    | cons w ws ih =>
      rintro ⟨h₁, h₂⟩
      rw [List.sum_cons] at h₂
      by_cases hp : p < start + w
      · exact ⟨(start, start + w), List.mem_cons_self, h₁, hp⟩
      · -- `p` lies past the first cell, in the tiling of the rest
        obtain ⟨c, hc, hc₁, hc₂⟩ := ih (show start + w ≤ p ∧ p < start + w + ws.sum by omega)
        exact ⟨c, List.mem_cons_of_mem _ hc, hc₁, hc₂⟩

end Layout

end Bytes
