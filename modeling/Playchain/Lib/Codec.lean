import Mathlib.Tactic

/-!
# Codecs

A codec writes a value in front of a stream of bytes and reads it back. It is prefix free and canonical: what was
written is read back whatever follows it, and only what is written is read. The instances here are single bytes and
numbers of any length in groups of seven bits, the lowest first.
-/

/-- A prefix-free bijective codec. -/
structure Codec (α : Type*) where
  encode : α → List UInt8
  decode : List UInt8 → Option (α × List UInt8)
  decode_encode : ∀ a rest, decode (encode a ++ rest) = some (a, rest)
  eq_encode_of_decode : ∀ bytes a rest, decode bytes = some (a, rest) → bytes = encode a ++ rest

namespace Codec

/-- A byte. -/
def byte : Codec UInt8 where
  encode b := [b]
  decode
    | [] => none
    | b :: rest => some (b, rest)
  decode_encode _ _ := rfl
  eq_encode_of_decode bytes a rest h := by
    cases bytes with
    | nil => cases h
    | cons b bytes =>
      obtain ⟨rfl, rfl⟩ := Prod.mk.inj (Option.some.inj h)
      rfl

/-- Groups of seven bits; the highest bit of a byte says that another one follows. -/
def encodeNat (n : ℕ) : List UInt8 :=
  if n < 128 then [n.toUInt8] else (n % 128 + 128).toUInt8 :: encodeNat (n / 128)
termination_by n
decreasing_by omega

/-- The number in front of a stream; a last group that is zero is refused, since the number is shorter without it. -/
def decodeNat : List UInt8 → Option (ℕ × List UInt8)
  | [] => none
  | b :: bs =>
    if b.toNat < 128 then some (b.toNat, bs)
    else
      match decodeNat bs with
      | none => none
      | some r => if r.1 = 0 then none else some (b.toNat - 128 + 128 * r.1, r.2)

theorem decodeNat_encodeNat (n : ℕ) (rest : List UInt8) : decodeNat (encodeNat n ++ rest) = some (n, rest) := by
  induction n using Nat.strong_induction_on with
  | _ n ih =>
    rw [encodeNat]
    by_cases hsmall : n < 128
    · have hbyte : n.toUInt8.toNat = n := by
        rw [UInt8.toNat_ofNat']
        omega
      rw [if_pos hsmall, List.singleton_append, decodeNat, hbyte, if_pos hsmall]
    · have hbyte : (n % 128 + 128).toUInt8.toNat = n % 128 + 128 := by
        rw [UInt8.toNat_ofNat']
        omega
      rw [if_neg hsmall, List.cons_append, decodeNat, hbyte, if_neg (by omega), ih (n / 128) (by omega)]
      dsimp only
      rw [if_neg (by omega), Nat.add_sub_cancel, Nat.mod_add_div]

theorem eq_encodeNat_of_decodeNat {bytes rest : List UInt8} {n : ℕ} (h : decodeNat bytes = some (n, rest)) :
    bytes = encodeNat n ++ rest := by
  induction bytes generalizing n with
  | nil => cases h
  | cons b bytes ih =>
    have hb : b.toNat < 256 := b.toNat_lt
    rw [decodeNat] at h
    by_cases hsmall : b.toNat < 128
    · rw [if_pos hsmall] at h
      obtain ⟨rfl, rfl⟩ := Prod.mk.inj (Option.some.inj h)
      rw [encodeNat, if_pos hsmall, List.singleton_append]
      simp
    · rw [if_neg hsmall] at h
      rcases hdecode : decodeNat bytes with _ | ⟨k, rest'⟩
      · rw [hdecode] at h
        cases h
      · rw [hdecode] at h
        dsimp only at h
        by_cases hzero : k = 0
        · rw [if_pos hzero] at h
          cases h
        · rw [if_neg hzero] at h
          obtain ⟨rfl, rfl⟩ := Prod.mk.inj (Option.some.inj h)
          have hmod : (b.toNat - 128 + 128 * k) % 128 + 128 = b.toNat := by omega
          have hdiv : (b.toNat - 128 + 128 * k) / 128 = k := by omega
          rw [encodeNat, if_neg (by omega), hmod, hdiv, List.cons_append, ← ih hdecode]
          simp

/-- A 64-bit number. -/
def uint64 : Codec UInt64 where
  encode n := encodeNat n.toNat
  decode bytes :=
    match decodeNat bytes with
    | none => none
    | some r => if r.1 < 2 ^ 64 then some (r.1.toUInt64, r.2) else none
  decode_encode n rest := by
    rw [decodeNat_encodeNat]
    dsimp only
    rw [if_pos n.toNat_lt]
    simp
  eq_encode_of_decode bytes a rest h := by
    rcases hdecode : decodeNat bytes with _ | ⟨k, rest'⟩
    · rw [hdecode] at h
      cases h
    · rw [hdecode] at h
      dsimp only at h
      by_cases hsmall : k < 2 ^ 64
      · rw [if_pos hsmall] at h
        obtain ⟨rfl, rfl⟩ := Prod.mk.inj (Option.some.inj h)
        rw [UInt64.toNat_ofNat', Nat.mod_eq_of_lt hsmall]
        exact eq_encodeNat_of_decodeNat hdecode
      · rw [if_neg hsmall] at h
        cases h

end Codec
