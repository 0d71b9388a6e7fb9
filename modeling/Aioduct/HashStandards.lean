import Mathlib.Tactic
import Aioduct.Md5

/-!
# The standard hashes

SHA-256 in the terms of FIPS 180-4 and MD5 in those of RFC 1321, and that `compute` of both
modules returns their digests. The constants are roots of primes and sines of integers.
-/

namespace Aioduct.Standard

open Wire List Sha256 Nat Complex
open Sha256 (rotateRight)

/-- A one bit, the least number of zeros after which 64 bits complete a block, and the length. -/
def padded (message length : Bytes) : Bytes :=
  message ++ [0x80] ++ replicate ((119 - message.length % 64) % 64) 0 ++ length

def bitLength (message : Bytes) : Bytes := Sha256.toBeBytes64 (.ofNat (8 * message.length))

def blocks (message : Bytes) : List Bytes :=
  (range (message.length / 64)).map fun i => (message.drop (64 * i)).take 64

lemma pushZeros_eq {fuel : Nat} {p : Bytes} (h : (120 - p.length % 64) % 64 ≤ fuel) :
    Sha256.pushZeros fuel p = p ++ replicate ((120 - p.length % 64) % 64) 0 := by
  induction fuel generalizing p with
  | zero => simp [pushZeros, show (120 - p.length % 64) % 64 = 0 by omega]
  | succ n ih =>
    rw [pushZeros]
    split_ifs with hp
    · have hz : (120 - p.length % 64) % 64 = (120 - (p.length + 1) % 64) % 64 + 1 := by omega
      rw [ih (by simp; omega), hz]
      simp [replicate_succ]
    · simp [show p.length % 64 = 56 by omega]

lemma pushZeros_message (message length : Bytes) :
    Sha256.pushZeros 63 (message ++ [0x80]) ++ length = padded message length := by
  rw [pushZeros_eq (by simp; omega), padded, length_append, length_singleton]
  congr 3
  omega

lemma bitLength_eq (message : Bytes) :
    Sha256.toBeBytes64 (.ofNat message.length * 8) = bitLength message := by
  rw [bitLength, mul_comm, UInt64.ofNat_mul]
  rfl

lemma chunks_eq (size count : Nat) (data : Bytes) :
    Sha256.chunks size count data =
      (range count).map fun i => (data.drop (size * i)).take size := by
  induction count generalizing data with
  | zero => rfl
  | succ n ih => simp [chunks, ih, range_succ_eq_map, Function.comp_def, mul_succ,
      add_comm]

def primes : List Nat := (range' 2 310).filter fun p => (range' 2 (p - 2)).all (p % · ≠ 0)

def cubeRoot (t : Nat) : UInt32 := .ofNat (Nat.nthRoot 3 (primes.getD t 0 * 2 ^ 96))

def squareRoot (t : Nat) : UInt32 := .ofNat (Nat.nthRoot 2 (primes.getD t 0 * 2 ^ 64))

def ch (x y z : UInt32) : UInt32 := (x &&& y) ^^^ (~~~x &&& z)

def maj (x y z : UInt32) : UInt32 := (x &&& y) ^^^ (x &&& z) ^^^ (y &&& z)

def sum0 (x : UInt32) : UInt32 := rotateRight x 2 ^^^ rotateRight x 13 ^^^ rotateRight x 22

def sum1 (x : UInt32) : UInt32 := rotateRight x 6 ^^^ rotateRight x 11 ^^^ rotateRight x 25

def sigma0 (x : UInt32) : UInt32 := rotateRight x 7 ^^^ rotateRight x 18 ^^^ (x >>> 3)

def sigma1 (x : UInt32) : UInt32 := rotateRight x 17 ^^^ rotateRight x 19 ^^^ (x >>> 10)

/-- The message schedule of a block of words `m`. -/
def scheduled (m : Nat → UInt32) (t : Nat) : UInt32 :=
  if _h : t < 16 then m t
  else sigma1 (scheduled m (t - 2)) + scheduled m (t - 7) + sigma0 (scheduled m (t - 15)) +
    scheduled m (t - 16)

def shaStep (m : Nat → UInt32) (v : Sha256.State) (t : Nat) : Sha256.State :=
  let t1 := v.h + sum1 v.e + ch v.e v.f v.g + cubeRoot t + scheduled m t
  let t2 := sum0 v.a + maj v.a v.b v.c
  ⟨t1 + t2, v.a, v.b, v.c, v.d + t1, v.e, v.f, v.g⟩

def shaBlock (hash : Sha256.State) (block : Bytes) : Sha256.State :=
  let m := fun j => Sha256.fromBeBytes ((block.drop (4 * j)).take 4)
  let v := (range 64).foldl (shaStep m) hash
  ⟨hash.a + v.a, hash.b + v.b, hash.c + v.c, hash.d + v.d, hash.e + v.e, hash.f + v.f,
    hash.g + v.g, hash.h + v.h⟩

def sha256 (message : Bytes) : Bytes :=
  let hash := (blocks (padded message (bitLength message))).foldl shaBlock
    ⟨squareRoot 0, squareRoot 1, squareRoot 2, squareRoot 3, squareRoot 4, squareRoot 5,
      squareRoot 6, squareRoot 7⟩
  [hash.a, hash.b, hash.c, hash.d, hash.e, hash.f, hash.g, hash.h].flatMap Sha256.toBeBytes

lemma extendSchedule_eq (m : Nat → UInt32) {t : Nat} (ht : 16 ≤ t) (count : Nat) :
    Sha256.extendSchedule count ((range t).map (scheduled m)) =
      (range (t + count)).map (scheduled m) := by
  induction count generalizing t with
  | zero => rfl
  | succ n ih =>
    have hg {i : Nat} (hi : i < t) : ((range t).map (scheduled m)).getD i 0 = scheduled m i := by
      simp [getD_eq_getElem?_getD, hi]
    have ha (w s x y : UInt32) : w + s + x + y = y + x + s + w := by ac_rfl
    have hw : scheduleWord ((range t).map (scheduled m)) = scheduled m t := by
      rw [scheduled, dif_neg (by omega), ← ha, scheduleWord]
      simp only [length_map, length_range]
      rw [hg (by omega), hg (by omega), hg (by omega), hg (by omega)]
      rfl
    rw [extendSchedule, hw, ← map_singleton, ← map_append, ← range_succ, ih (by omega)]
    congr 2
    omega

lemma round_eq (hash : Sha256.State) (block : Bytes) :
    Sha256.round hash (Sha256.schedule block) = shaBlock hash block := by
  have hk : k = (range 64).map cubeRoot := by decide +kernel
  have hm (m : Nat → UInt32) : (range 16).map m = (range 16).map (scheduled m) := by
    refine map_congr_left fun t ht => ?_
    rw [scheduled, dif_pos (mem_range.mp ht)]
  rw [Sha256.schedule, chunks_eq, map_map, hm, extendSchedule_eq _ le_rfl, Sha256.round, hk,
    zip_map', foldl_map]
  rfl

theorem sha256_eq (data : Bytes) : Sha256.compute data = sha256 data := by
  have hi : Sha256.State.initial = ⟨squareRoot 0, squareRoot 1, squareRoot 2, squareRoot 3,
    squareRoot 4, squareRoot 5, squareRoot 6, squareRoot 7⟩ := by
    rw [Sha256.State.initial, Sha256.State.mk.injEq]
    decide
  rw [compute, pad, pushZeros_message, bitLength_eq, chunks_eq, hi]
  simp only [round_eq]
  rfl

noncomputable def sine (i : Nat) : UInt32 := .ofNat ⌊2 ^ 32 * |Real.sin i|⌋₊

/-- The functions `F`, `G`, `H` and `I` of the four rounds. -/
def auxiliary : Nat → UInt32 → UInt32 → UInt32 → UInt32
  | 0, x, y, z => (x &&& y) ||| (~~~x &&& z)
  | 1, x, y, z => (x &&& z) ||| (y &&& ~~~z)
  | 2, x, y, z => x ^^^ y ^^^ z
  | _, x, y, z => y ^^^ (x ||| ~~~z)

/-- The word that each operation of the four rounds adds. -/
def wordOrder : List Nat :=
  [0, 1, 2, 3, 4, 5, 6, 7, 8, 9, 10, 11, 12, 13, 14, 15,
    1, 6, 11, 0, 5, 10, 15, 4, 9, 14, 3, 8, 13, 2, 7, 12,
    5, 8, 11, 14, 1, 4, 7, 10, 13, 0, 3, 6, 9, 12, 15, 2,
    0, 7, 14, 5, 12, 3, 10, 1, 8, 15, 6, 13, 4, 11, 2, 9]

def shift (t : Nat) : UInt32 :=
  ([[7, 12, 17, 22], [5, 9, 14, 20], [4, 11, 16, 23], [6, 10, 15, 21]].getD (t / 16) []).getD
    (t % 4) 0

/-- The operation `t` changes the first of the registers ABCD, DABC, CDAB and BCDA in turn. -/
noncomputable def operation (x : Nat → UInt32) (r : Fin 4 → UInt32) (t : Nat) : Fin 4 → UInt32 :=
  let a := Fin.ofNat 4 (3 * t)
  let sum := r a + auxiliary (t / 16) (r (a + 1)) (r (a + 2)) (r (a + 3)) +
    x (wordOrder.getD t 0) + sine (t + 1)
  Function.update r a (r (a + 1) + Md5.rotateLeft sum (shift t))

noncomputable def md5Block (r : Fin 4 → UInt32) (block : Bytes) : Fin 4 → UInt32 :=
  let x := fun j => Md5.fromLeBytes ((block.drop (4 * j)).take 4)
  fun j => r j + (range 64).foldl (operation x) r j

noncomputable def md5 (message : Bytes) : Bytes :=
  let r := (blocks (padded message (bitLength message).reverse)).foldl md5Block
    ![0x67452301, 0xefcdab89, 0x98badcfe, 0x10325476]
  [r 0, r 1, r 2, r 3].flatMap Md5.toLeBytes

/-- The Taylor sum of the exponential at the imaginary unit. -/
noncomputable def taylor : ℂ := ∑ m ∈ Finset.range 20, I ^ m / m.factorial

/-- The powers of the Taylor sum, over `19! ^ n`. -/
def taylorPow : Nat → Int × Int
  | 0 => (1, 0)
  | n + 1 =>
    let (x, y) := taylorPow n
    let (c, s) := (65725128248453315, 102360822438075317)
    (x * c - y * s, x * s + y * c)

lemma taylorPow_eq (n : Nat) :
    ((taylorPow n).1 + (taylorPow n).2 * I : ℂ) = (Nat.factorial 19 * taylor) ^ n := by
  have ht : factorial 19 * taylor = 65725128248453315 + 102360822438075317 * I := by
    simp [taylor, Finset.sum_range_succ, pow_succ, factorial]
    ring
  induction n with
  | zero => simp [taylorPow]
  | succ n ih =>
    rw [pow_succ, ← ih, ht]
    simp only [taylorPow]
    push_cast
    linear_combination -((taylorPow n).2 * 102360822438075317 : ℂ) * I_sq

lemma norm_exp_sub_taylor {n : Nat} (hn : n ≤ 64) : ‖exp I ^ n - taylor ^ n‖ ≤ n / 10 ^ 18 := by
  have h1 : ‖exp I - taylor‖ ≤ 1 / (2 * 10 ^ 18) := by
    have h := exp_bound (x := I) (by simp) (n := 20) (by decide)
    norm_num [factorial] at h
    exact h.trans (by norm_num)
  have he : ‖exp I‖ = 1 := by simpa using norm_exp_ofReal_mul_I 1
  have ht : ‖taylor‖ ≤ 1 + 1 / (2 * 10 ^ 18) := by
    have h := norm_sub_norm_le taylor (exp I)
    rw [norm_sub_rev] at h
    linarith
  induction n with
  | zero => simp
  | succ n ih =>
    have hs : exp I ^ (n + 1) - taylor ^ (n + 1) =
      exp I ^ n * (exp I - taylor) + (exp I ^ n - taylor ^ n) * taylor := by ring
    have hm := mul_le_mul (ih (by omega)) ht (norm_nonneg _) (by positivity)
    have hr : (n : ℝ) ≤ 64 := by exact_mod_cast (by omega : n ≤ 64)
    rw [hs]
    refine (norm_add_le _ _).trans ?_
    rw [norm_mul, norm_mul, norm_pow, he, one_pow, one_mul, cast_succ]
    linarith

lemma abs_sin_sub {n : Nat} (hn : n ≤ 64) :
    |Real.sin n - (taylorPow n).2 / (Nat.factorial 19) ^ n| ≤ n / 10 ^ 18 := by
  have hp : taylor ^ n = ((taylorPow n).1 + (taylorPow n).2 * Complex.I) /
      ((factorial 19 ^ n : Nat) : ℂ) := by
    have hz : (factorial 19 : ℂ) ≠ 0 := cast_ne_zero.mpr (factorial_ne_zero 19)
    rw [taylorPow_eq, mul_pow, cast_pow, mul_div_cancel_left₀ _ (pow_ne_zero n hz)]
  have hi : (taylor ^ n).im = (taylorPow n).2 / (factorial 19) ^ n := by
    rw [hp, div_natCast_im]
    simp
  have hs : (exp Complex.I ^ n).im = Real.sin n := by
    rw [← exp_nat_mul, ← ofReal_natCast, exp_ofReal_mul_I_im]
  rw [← hi, ← hs, ← sub_im]
  exact (abs_im_le_norm _).trans (norm_exp_sub_taylor hn)

lemma sine_eq {t : Nat} (ht : t < 64) : sine (t + 1) = Md5.k.getD t 0 := by
  have hd : ∀ t < 64, let d : Int := factorial 19 ^ (t + 1)
      let y := 2 ^ 32 * 10 ^ 18 * |(taylorPow (t + 1)).2|
      let k := (Md5.k.getD t 0).toNat
      (k * 10 ^ 18 + 2 ^ 32 * (t + 1)) * d ≤ y ∧
        y < ((k + 1) * 10 ^ 18 - 2 ^ 32 * (t + 1)) * d := by decide
  obtain ⟨hl, hu⟩ := hd t ht
  have hs := (abs_abs_sub_abs_le _ _).trans (abs_sin_sub (show t + 1 ≤ 64 from ht))
  have h0 : (0 : ℝ) < factorial 19 ^ (t + 1) := by positivity
  rw [abs_div, abs_of_pos h0, abs_le] at hs
  have hl := Int.cast_le (R := ℝ).mpr hl
  have hu := Int.cast_lt (R := ℝ).mpr hu
  push_cast at hl hu hs
  rw [← le_div_iff₀ h0, mul_div_assoc] at hl
  rw [← div_lt_iff₀ h0, mul_div_assoc] at hu
  have hf : ⌊2 ^ 32 * |Real.sin (t + 1 : Nat)|⌋₊ = (Md5.k.getD t 0).toNat := by
    rw [floor_eq_iff (by positivity)]
    push_cast
    constructor <;> linarith
  rw [sine, hf, UInt32.ofNat_toNat]

/-- The registers as the variables of `md5_round`, when `i` is the one that plays `a`. -/
def view (r : Fin 4 → UInt32) (i : Fin 4) : Md5.State := ⟨r i, r (i + 1), r (i + 2), r (i + 3)⟩

lemma mix_eq (st : Md5.State) {t : Nat} (ht : t < 64) :
    Md5.mix st t = (auxiliary (t / 16) st.b st.c st.d, wordOrder.getD t 0) := by
  have hw : ∀ t < 64, wordOrder.getD t 0 = if t < 16 then t else if t < 32 then (5 * t + 1) % 16
    else if t < 48 then (3 * t + 5) % 16 else 7 * t % 16 := by decide
  rw [Md5.mix, hw t ht]
  split_ifs
  · rw [show t / 16 = 0 by omega, auxiliary]
  · rw [show t / 16 = 1 by omega, auxiliary, UInt32.and_comm, UInt32.and_comm (~~~_)]
  · rw [show t / 16 = 2 by omega, auxiliary]
  · rw [show t / 16 = 3 by omega]
    rfl

variable {x : Nat → UInt32} {words : List UInt32} (hx : ∀ j < 16, words.getD j 0 = x j)
include hx

lemma roundStep_eq (r : Fin 4 → UInt32) {t : Nat} (ht : t < 64) :
    Md5.roundStep words (view r (Fin.ofNat 4 (3 * t))) t =
      view (operation x r t) (Fin.ofNat 4 (3 * (t + 1))) := by
  have hw : ∀ t < 64, wordOrder.getD t 0 < 16 := by decide
  have hu (i : Fin 4) (v : UInt32) :
      view (Function.update r i v) (i + 3) = ⟨r (i + 3), v, r (i + 1), r (i + 2)⟩ := by
    fin_cases i <;> rfl
  have hi : Fin.ofNat 4 (3 * (t + 1)) = Fin.ofNat 4 (3 * t) + 3 := by
    apply Fin.ext
    simp [Fin.val_add]
    omega
  rw [hi, operation, hu, Md5.roundStep, mix_eq _ ht, sine_eq ht, UInt32.add_assoc _ (x _),
    UInt32.add_comm (x _), ← UInt32.add_assoc, ← hx _ (hw t ht)]
  rfl

lemma foldl_roundStep_eq (r : Fin 4 → UInt32) {n : Nat} (hn : n ≤ 64) :
    (range n).foldl (Md5.roundStep words) (view r 0) =
      view ((range n).foldl (operation x) r) (Fin.ofNat 4 (3 * n)) := by
  induction n with
  | zero => rfl
  | succ n ih =>
    rw [range_succ, foldl_append, foldl_append, ih (by omega)]
    exact roundStep_eq hx _ (by omega)

omit hx

theorem md5_eq (data : Bytes) : Md5.compute data = md5 data := by
  have hb (r : Fin 4 → UInt32) (block : Bytes) :
      Md5.round (view r 0) ((chunks 4 16 block).map Md5.fromLeBytes) =
        view (md5Block r block) 0 := by
    rw [chunks_eq, map_map, Md5.round, foldl_roundStep_eq _ r le_rfl]
    · rfl
    · intro j hj
      simp [getD_eq_getElem?_getD, hj]
  have hi : Md5.State.initial = view ![0x67452301, 0xefcdab89, 0x98badcfe, 0x10325476] 0 := rfl
  rw [Md5.compute, Md5.pad, bitLength_eq, pushZeros_message, chunks_eq, hi,
    foldl_hom (fun r => view r 0) hb]
  rfl

theorem compute_standard (data : Bytes) :
    Md5.compute data = md5 data ∧ Sha256.compute data = sha256 data :=
  ⟨md5_eq data, sha256_eq data⟩

end Aioduct.Standard
