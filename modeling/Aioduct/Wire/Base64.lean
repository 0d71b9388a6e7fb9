import Aioduct.Wire.Bytes

/-!
# Base64

The codec is an interface with the laws that its users rely on.
-/

namespace Wire

open Option

def isBase64Char (b : UInt8) : Bool :=
  isAlphanumeric b || b == byte '+' || b == byte '/' || b == byte '='

/-- A padded Base64 codec. -/
class Base64 where
  encode : Bytes → Bytes
  decode : Bytes → Option Bytes
  decode_encode : ∀ b, decode (encode b) = some b
  encode_alphabet : ∀ b, ∀ c ∈ encode b, isBase64Char c = true
  length_encode : ∀ b, (encode b).length % 4 = 0

namespace Base64

def sextet (n : Nat) : UInt8 :=
  if n < 26 then UInt8.ofNat (65 + n)
  else if n < 52 then UInt8.ofNat (71 + n)
  else if n < 62 then UInt8.ofNat (n - 4)
  else if n = 62 then byte '+'
  else byte '/'

def sextetValue (c : UInt8) : Option Nat :=
  if isUppercase c then some (c.toNat - 65)
  else if isLowercase c then some (c.toNat - 71)
  else if isDigit c then some (c.toNat + 4)
  else if c = byte '+' then some 62
  else if c = byte '/' then some 63
  else none

def standardEncode : Bytes → Bytes
  | [] => []
  | [a] => [sextet (a.toNat / 4), sextet (a.toNat % 4 * 16), byte '=', byte '=']
  | [a, b] =>
    [sextet (a.toNat / 4), sextet (a.toNat % 4 * 16 + b.toNat / 16),
      sextet (b.toNat % 16 * 4), byte '=']
  | a :: b :: c :: rest =>
    sextet (a.toNat / 4) :: sextet (a.toNat % 4 * 16 + b.toNat / 16) ::
      sextet (b.toNat % 16 * 4 + c.toNat / 64) :: sextet (c.toNat % 64) :: standardEncode rest

def decodeOne (w x : UInt8) : Option Bytes := do
  let w ← sextetValue w
  let x ← sextetValue x
  if x % 16 = 0 then some [UInt8.ofNat (w * 4 + x / 16)] else none

def decodeTwo (w x y : UInt8) : Option Bytes := do
  let w ← sextetValue w
  let x ← sextetValue x
  let y ← sextetValue y
  if y % 4 = 0 then some [UInt8.ofNat (w * 4 + x / 16), UInt8.ofNat (x % 16 * 16 + y / 4)]
  else none

def decodeThree (w x y z : UInt8) : Option Bytes := do
  let w ← sextetValue w
  let x ← sextetValue x
  let y ← sextetValue y
  let z ← sextetValue z
  some [UInt8.ofNat (w * 4 + x / 16), UInt8.ofNat (x % 16 * 16 + y / 4),
    UInt8.ofNat (y % 4 * 64 + z)]

def standardDecode : Bytes → Option Bytes
  | [] => some []
  | w :: x :: y :: z :: rest =>
    if rest = [] ∧ z = byte '=' then
      if y = byte '=' then decodeOne w x else decodeTwo w x y
    else do
      let group ← decodeThree w x y z
      let tail ← standardDecode rest
      some (group ++ tail)
  | _ => none

lemma sextetValue_sextet {n : Nat} (h : n < 64) : sextetValue (sextet n) = some n := by
  have hall : ∀ n : Fin 64, sextetValue (sextet n) = some n.val := by decide
  exact hall ⟨n, h⟩

lemma forall_sextet {P : UInt8 → Prop} (h : ∀ n : Fin 64, P (sextet n)) (n : Nat) :
    P (sextet n) := by
  by_cases hn : n < 64
  · exact h ⟨n, hn⟩
  · have hl : sextet n = sextet 63 := by grind [sextet]
    exact hl ▸ h 63

lemma isBase64Char_sextet (n : Nat) : isBase64Char (sextet n) :=
  forall_sextet (P := fun c => isBase64Char c) (by decide) n

lemma sextet_ne_pad (n : Nat) : sextet n ≠ byte '=' :=
  forall_sextet (P := (· ≠ byte '=')) (by decide) n

lemma ofNat_of_eq {n : Nat} {a : UInt8} (h : n = a.toNat) : UInt8.ofNat n = a := by
  rw [h, UInt8.ofNat_toNat]

lemma decodeThree_sextets (a b c : UInt8) :
    decodeThree (sextet (a.toNat / 4)) (sextet (a.toNat % 4 * 16 + b.toNat / 16))
      (sextet (b.toNat % 16 * 4 + c.toNat / 64)) (sextet (c.toNat % 64)) = some [a, b, c] := by
  have ha := a.toNat_lt
  have hb := b.toNat_lt
  have hc := c.toNat_lt
  rw [decodeThree, sextetValue_sextet (by omega), sextetValue_sextet (by omega),
    sextetValue_sextet (by omega), sextetValue_sextet (by omega)]
  simp only [bind_eq_bind, bind_some]
  rw [ofNat_of_eq (a := a) (by omega), ofNat_of_eq (a := b) (by omega),
    ofNat_of_eq (a := c) (by omega)]

lemma decodeTwo_sextets (a b : UInt8) :
    decodeTwo (sextet (a.toNat / 4)) (sextet (a.toNat % 4 * 16 + b.toNat / 16))
      (sextet (b.toNat % 16 * 4)) = some [a, b] := by
  have ha := a.toNat_lt
  have hb := b.toNat_lt
  rw [decodeTwo, sextetValue_sextet (by omega), sextetValue_sextet (by omega),
    sextetValue_sextet (by omega)]
  simp only [bind_eq_bind, bind_some]
  rw [if_pos (by omega), ofNat_of_eq (a := a) (by omega), ofNat_of_eq (a := b) (by omega)]

lemma decodeOne_sextets (a : UInt8) :
    decodeOne (sextet (a.toNat / 4)) (sextet (a.toNat % 4 * 16)) = some [a] := by
  have ha := a.toNat_lt
  rw [decodeOne, sextetValue_sextet (by omega), sextetValue_sextet (by omega)]
  simp only [bind_eq_bind, bind_some]
  rw [if_pos (by omega), ofNat_of_eq (a := a) (by omega)]

theorem standardDecode_standardEncode (b : Bytes) : standardDecode (standardEncode b) = some b := by
  fun_induction standardEncode b with
  | case1 => rfl
  | case2 a => simp [standardDecode, decodeOne_sextets]
  | case3 a b => simp [standardDecode, sextet_ne_pad, decodeTwo_sextets]
  | case4 a b c rest ih => simp [standardDecode, sextet_ne_pad, decodeThree_sextets, ih]

@[reducible] def standard : Base64 where
  encode := standardEncode
  decode := standardDecode
  decode_encode := standardDecode_standardEncode
  encode_alphabet := by
    intro b
    have hpad : isBase64Char (byte '=') = true := by decide
    fun_induction standardEncode b with
    | case1 => simp
    | case2 a | case3 a b => simp [isBase64Char_sextet, hpad]
    | case4 a b c rest ih => simpa [isBase64Char_sextet] using ih
  length_encode := by
    intro b
    fun_induction standardEncode b with
    | case1 => rfl
    | case2 a | case3 a b => simp
    | case4 a b c rest ih =>
      simp only [List.length_cons]
      omega

end Base64

end Wire
