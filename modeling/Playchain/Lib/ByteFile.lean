import Mathlib.Data.List.Basic
import Mathlib.Tactic

/-!
# Files as lists of bytes

Reading and writing at a position, and numbers in little-endian order. A write beyond the end fills the
gap with zeros.
-/

namespace ByteFile

variable {f data : List UInt8} {pos len pos' n : ℕ}

/-- The bytes at a position. -/
def slice (f : List UInt8) (pos len : ℕ) : List UInt8 := (f.drop pos).take len

/-- Overwrite the bytes at a position. -/
def writeAt (f : List UInt8) (pos : ℕ) (data : List UInt8) : List UInt8 :=
  f.take pos ++ (List.replicate (pos - f.length) 0 ++ (data ++ f.drop (pos + data.length)))

theorem getElem?_slice (i : ℕ) : (slice f pos len)[i]? = if i < len then f[pos + i]? else none := by
  rw [slice, List.getElem?_take, List.getElem?_drop]

theorem length_slice (h : pos + len ≤ f.length) : (slice f pos len).length = len := by
  rw [slice, List.length_take, List.length_drop]
  omega

theorem length_writeAt : (writeAt f pos data).length = max f.length (pos + data.length) := by
  simp only [writeAt, List.length_append, List.length_take, List.length_replicate, List.length_drop]
  omega

theorem getElem?_writeAt (i : ℕ) : (writeAt f pos data)[i]? =
    if i < pos then (if i < f.length then f[i]? else some 0)
    else if i < pos + data.length then data[i - pos]? else f[i]? := by
  simp only [writeAt, List.getElem?_append, List.length_take, List.length_replicate, List.getElem?_take,
    List.getElem?_replicate, List.getElem?_drop]
  by_cases hpos : i < pos
  · by_cases hlen : i < f.length
    · rw [if_pos (by omega), if_pos hpos, if_pos hpos, if_pos hlen]
    · rw [if_neg (by omega), if_pos (by omega), if_pos (by omega), if_pos hpos, if_neg hlen]
  · rw [if_neg (by omega), if_neg (by omega), if_neg hpos]
    have hsub : i - min pos f.length - (pos - f.length) = i - pos := by omega
    rw [hsub]
    by_cases hdata : i < pos + data.length
    · rw [if_pos (by omega), if_pos hdata]
    · rw [if_neg (by omega), if_neg hdata]
      congr 1
      omega

/-- What was written is read. -/
theorem slice_writeAt_self : slice (writeAt f pos data) pos data.length = data := by
  refine List.ext_getElem? fun i ↦ ?_
  rw [getElem?_slice, getElem?_writeAt]
  by_cases hi : i < data.length
  · rw [if_pos hi, if_neg (by omega), if_pos (by omega)]
    congr 1
    omega
  · rw [if_neg hi, List.getElem?_eq_none (not_lt.1 hi)]

/-- The other bytes of the file are as they were. -/
theorem slice_writeAt_of_disjoint (h : pos' + len ≤ f.length)
    (hdisjoint : pos' + len ≤ pos ∨ pos + data.length ≤ pos') :
    slice (writeAt f pos data) pos' len = slice f pos' len := by
  refine List.ext_getElem? fun i ↦ ?_
  rw [getElem?_slice, getElem?_slice, getElem?_writeAt]
  by_cases hi : i < len
  · rw [if_pos hi, if_pos hi]
    rcases hdisjoint with hbefore | hafter
    · rw [if_pos (by omega), if_pos (by omega)]
    · rw [if_neg (by omega), if_neg (by omega)]
  · rw [if_neg hi, if_neg hi]

/-- A gap is filled with zeros. -/
theorem slice_writeAt_gap (h : f.length ≤ pos') (hgap : pos' + len ≤ pos) :
    slice (writeAt f pos data) pos' len = List.replicate len 0 := by
  refine List.ext_getElem? fun i ↦ ?_
  rw [getElem?_slice, getElem?_writeAt, List.getElem?_replicate]
  by_cases hi : i < len
  · rw [if_pos hi, if_pos hi, if_pos (by omega), if_neg (by omega)]
  · rw [if_neg hi, if_neg hi]

/-- The bytes before a cut stay. -/
theorem slice_take (h : pos + len ≤ n) : slice (f.take n) pos len = slice f pos len := by
  refine List.ext_getElem? fun i ↦ ?_
  rw [getElem?_slice, getElem?_slice, List.getElem?_take]
  by_cases hi : i < len
  · rw [if_pos hi, if_pos hi, if_pos (by omega)]
  · rw [if_neg hi, if_neg hi]

/-! ### Numbers -/

/-- A number in little-endian order, modulo its width. -/
def leBytes : ℕ → ℕ → List UInt8
  | 0, _ => []
  | w + 1, n => UInt8.ofNat n :: leBytes w (n / 256)

/-- The number of little-endian bytes. -/
def ofLeBytes : List UInt8 → ℕ
  | [] => 0
  | b :: bs => b.toNat + 256 * ofLeBytes bs

@[simp] theorem length_leBytes (w n : ℕ) : (leBytes w n).length = w := by
  induction w generalizing n with
  | zero => rfl
  | succ w ih => rw [leBytes, List.length_cons, ih]

theorem ofLeBytes_leBytes {w n : ℕ} (h : n < 256 ^ w) : ofLeBytes (leBytes w n) = n := by
  induction w generalizing n with
  | zero =>
    rw [pow_zero, Nat.lt_one_iff] at h
    exact h.symm
  | succ w ih =>
    have hdiv : n / 256 < 256 ^ w := Nat.div_lt_of_lt_mul (by rwa [← pow_succ'])
    rw [leBytes, ofLeBytes, ih hdiv, UInt8.toNat_ofNat']
    exact Nat.mod_add_div n 256

theorem ofLeBytes_lt (l : List UInt8) : ofLeBytes l < 256 ^ l.length := by
  induction l with
  | nil => decide
  | cons b l ih =>
    have hb := b.toNat_lt
    rw [ofLeBytes, List.length_cons, pow_succ']
    omega

end ByteFile
