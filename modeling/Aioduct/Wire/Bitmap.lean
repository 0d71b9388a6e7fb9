import Aioduct.Wire.Bytes
import Mathlib.Data.Nat.Bitwise

/-!
# Bitmaps

Bits that are packed in bytes, the first one in the most significant place.
-/

namespace Wire

open List Nat

variable {i : Nat} {q : Nat → Bool}

def bitMask (i : Nat) : UInt8 := 1 <<< UInt8.ofNat (7 - i % 8)

variable (bits : Bytes)

def bitAt (i : Nat) : Bool := (bits[i / 8]?).getD 0 &&& bitMask i != 0

def setBit (i : Nat) : Bytes := bits.set (i / 8) ((bits[i / 8]?).getD 0 ||| bitMask i)

@[simp]
lemma length_setBit (i : Nat) : (setBit bits i).length = bits.length :=
  length_set

lemma toNat_bitMask (i : Nat) : (bitMask i).toNat = 2 ^ (7 - i % 8) := by
  have hall : ∀ k < 8, ((1 : UInt8) <<< UInt8.ofNat k).toNat = 2 ^ k := by decide
  exact hall _ (by omega)

lemma and_bitMask (b : UInt8) (i : Nat) : (b &&& bitMask i != 0) = b.toNat.testBit (7 - i % 8) := by
  rw [Bool.eq_iff_iff, bne_iff_ne, ne_eq, ← UInt8.toNat_inj, UInt8.toNat_and, toNat_bitMask,
    and_two_pow]
  cases b.toNat.testBit (7 - i % 8) with
  | false => simp
  | true => simp

lemma or_bitMask (b : UInt8) (i j : Nat) :
    ((b ||| bitMask i) &&& bitMask j != 0) = (j % 8 == i % 8 || b &&& bitMask j != 0) := by
  rw [and_bitMask, and_bitMask, UInt8.toNat_or, toNat_bitMask, testBit_or,
    testBit_two_pow, Bool.or_comm]
  congr 1
  rw [Bool.eq_iff_iff, decide_eq_true_eq, beq_iff_eq]
  omega

lemma bitAt_setBit {bits : Bytes} (h : i / 8 < bits.length) (j : Nat) :
    bitAt (setBit bits i) j = (j == i || bitAt bits j) := by
  unfold bitAt setBit
  by_cases hb : i / 8 = j / 8
  · rw [← hb, getElem?_set_self h, Option.getD_some, or_bitMask]
    have hs : (j % 8 == i % 8) = (j == i) := by
      rw [Bool.eq_iff_iff, beq_iff_eq, beq_iff_eq]
      omega
    rw [hs]
  have hne : (j == i) = false := by
    rw [beq_eq_false_iff_ne]
    rintro rfl
    exact hb rfl
  rw [getElem?_set_ne hb, hne, Bool.false_or]

lemma bitAt_replicate_zero (n i : Nat) : bitAt (List.replicate n 0) i = false := by
  have hzero : ((replicate n (0 : UInt8))[i / 8]?).getD 0 = 0 := by
    rw [getElem?_replicate]
    split <;> rfl
  rw [bitAt, hzero]
  simp

def countBelow (p : Nat → Bool) (n : Nat) : Nat := (List.range n).countP p

variable {p : Nat → Bool} {n : Nat}

lemma countBelow_congr (h : ∀ i < n, p i = q i) : countBelow p n = countBelow q n := by
  apply countP_congr
  intro i hi
  rw [h i (mem_range.mp hi)]

lemma countBelow_insert (hi : i < n) (hp : p i = false)
    (hq : ∀ j, q j = (j == i || p j)) : countBelow q n = countBelow p n + 1 := by
  induction n with
  | zero => exact absurd hi (not_lt_zero i)
  | succ n ih =>
    simp only [countBelow, range_succ, countP_append] at ih ⊢
    by_cases hl : i = n
    · subst hl
      have hb : countBelow q i = countBelow p i := countBelow_congr fun j hj => by
        have hne : (j == i) = false := beq_eq_false_iff_ne.mpr (Nat.ne_of_lt hj)
        rw [hq, hne, Bool.false_or]
      rw [countBelow, countBelow] at hb
      rw [hb]
      simp [hq, hp]
    · have hne : (n == i) = false := beq_eq_false_iff_ne.mpr (Ne.symm hl)
      simp [hq, hne]
      omega

lemma countBelow_eq_iff : countBelow p n = n ↔ ∀ i < n, p i := by
  have hall : countBelow p n = (range n).length ↔ ∀ i ∈ range n, p i :=
    countP_eq_length
  rw [length_range] at hall
  rw [hall]
  simp [mem_range]

end Wire
