import Aioduct.Wire.Bytes

/-!
# Decimal numerals
-/

namespace Wire

open List

variable {d fuel : Nat}

def digitByte (d : Nat) : UInt8 := UInt8.ofNat (48 + d)

def numeralAux : Nat → Nat → Bytes
  | 0, _ => []
  | fuel + 1, n =>
    if n < 10 then [digitByte n] else numeralAux fuel (n / 10) ++ [digitByte (n % 10)]

variable (n : Nat)

/-- The decimal numeral of a number, without leading zeros. -/
def numeral : Bytes := numeralAux (n + 1) n

def digitsValue (s : Bytes) : Nat := s.foldl (fun acc b => acc * 10 + (b.toNat - 48)) 0

/-- The number of a string of digits, if it is below `bound`. -/
def parseBelow (bound : Nat) (s : Bytes) : Option Nat :=
  if digitsValue s < bound then some (digitsValue s) else none

lemma isDigit_digitByte (h : d < 10) : isDigit (digitByte d) := by
  have hall : ∀ d : Fin 10, isDigit (digitByte d) := by decide
  exact hall ⟨d, h⟩

lemma toNat_digitByte (h : d < 10) : (digitByte d).toNat - 48 = d := by
  have hall : ∀ d : Fin 10, (digitByte d).toNat - 48 = d.val := by decide
  exact hall ⟨d, h⟩

lemma numeralAux_eq_numeral (h : n < fuel) : numeralAux fuel n = numeral n := by
  induction n using Nat.strongRecOn generalizing fuel with
  | ind n ih =>
    obtain ⟨fuel, rfl⟩ : ∃ k, fuel = k + 1 := ⟨fuel - 1, by omega⟩
    unfold numeral
    simp only [numeralAux]
    by_cases hn : n < 10
    · simp [hn]
    · have hlt : n / 10 < n := by omega
      rw [if_neg hn, if_neg hn, ih (n / 10) hlt (by omega), ih (n / 10) hlt (by omega)]

lemma numeral_eq :
    numeral n = if n < 10 then [digitByte n] else numeral (n / 10) ++ [digitByte (n % 10)] := by
  conv_lhs => rw [numeral, numeralAux]
  by_cases hn : n < 10
  · simp [hn]
  · rw [if_neg hn, if_neg hn, numeralAux_eq_numeral (n / 10) (by omega)]

lemma numeral_ne_nil : numeral n ≠ [] := by
  rw [numeral_eq]
  split <;> simp

lemma isDigit_of_mem_numeral : ∀ b ∈ numeral n, isDigit b := by
  induction n using Nat.strongRecOn with
  | ind n ih =>
    rw [numeral_eq]
    by_cases hn : n < 10
    · simpa [hn] using isDigit_digitByte hn
    intro b hb
    simp only [hn, if_false, mem_append, mem_singleton] at hb
    rcases hb with hb | rfl
    · exact ih (n / 10) (by omega) b hb
    · exact isDigit_digitByte (by omega)

@[simp] lemma digitsValue_numeral : digitsValue (numeral n) = n := by
  induction n using Nat.strongRecOn with
  | ind n ih =>
    rw [numeral_eq]
    by_cases hn : n < 10
    · simp [hn, digitsValue, toNat_digitByte hn]
    have hp := ih (n / 10) (by omega)
    unfold digitsValue at hp ⊢
    rw [if_neg hn, foldl_append, hp, foldl_cons, foldl_nil, toNat_digitByte (by omega)]
    omega

lemma length_numeral_le {n k : Nat} (hk : 0 < k) (h : n < 10 ^ k) : (numeral n).length ≤ k := by
  induction k generalizing n with
  | zero => omega
  | succ k ih =>
    rw [numeral_eq]
    by_cases hn : n < 10
    · simp [hn]
    have hp : n / 10 < 10 ^ k := by
      omega
    have hpos : 0 < k := by
      rcases Nat.eq_zero_or_pos k with rfl | hpos
      · omega
      · exact hpos
    have hlen := ih hpos hp
    simp only [hn, if_false, length_append, length_singleton]
    omega

lemma head_numeral (h : 0 < n) : (numeral n).head? ≠ some (byte '0') := by
  induction n using Nat.strongRecOn with
  | ind n ih =>
    rw [numeral_eq]
    by_cases hn : n < 10
    · have hall : ∀ d : Fin 10, 0 < d.val → digitByte d ≠ byte '0' := by decide
      simpa [hn] using hall ⟨n, hn⟩ h
    have hp := ih (n / 10) (by omega) (by omega)
    cases hd : numeral (n / 10) with
    | nil => exact absurd hd (numeral_ne_nil _)
    | cons b rest => simpa [hn, hd] using hp

lemma numeral_injective {m n : Nat} (h : numeral m = numeral n) : m = n := by
  rw [← digitsValue_numeral m, h, digitsValue_numeral]

end Wire
