import Aioduct.Wire.Decimal

/-!
# Machine numbers

Reading numbers of a fixed width, and arithmetic that stops where the result does not fit.
-/

namespace Wire

/-- A nonempty string of digits below `bound`. -/
def parseDigits (bound : Nat) (s : Bytes) : Option Nat :=
  if s.isEmpty || !s.all isDigit then none else parseBelow bound s

/-- `str::parse` to an unsigned number of `width` bits. -/
def parseUnsigned (width : Nat) : Bytes → Option Nat
  | [] => none
  | b :: s => if b == byte '+' then parseDigits (2 ^ width) s else parseDigits (2 ^ width) (b :: s)

/-- `str::parse` to a signed number of `width + 1` bits. -/
def parseSigned (width : Nat) : Bytes → Option Int
  | [] => none
  | b :: s =>
    if b == byte '-' then (parseDigits (2 ^ width + 1) s).map fun n => -(n : Int)
    else if b == byte '+' then (parseDigits (2 ^ width) s).map Int.ofNat
    else (parseDigits (2 ^ width) (b :: s)).map Int.ofNat

def parseI64 : Bytes → Option Int := parseSigned 63

/-- For rewriting: a computation is followed step by step, so that the bounds in it are not
unfolded. -/
lemma some_bind {α β : Type} (a : α) (f : α → Option β) : (some a >>= f) = f a := rfl

namespace U64

def add (a b : Nat) : Option Nat := if a + b < 2 ^ 64 then some (a + b) else none

def sub (a b : Nat) : Option Nat := if b ≤ a then some (a - b) else none

def mul (a b : Nat) : Option Nat := if a * b < 2 ^ 64 then some (a * b) else none

variable {a b c : Nat}

lemma add_of_lt (h : a + b < 2 ^ 64) : add a b = some (a + b) := if_pos h

lemma sub_of_le (h : b ≤ a) : sub a b = some (a - b) := if_pos h

lemma mul_of_lt (h : a * b < 2 ^ 64) : mul a b = some (a * b) := if_pos h

lemma add_eq_some (h : add a b = some c) : c = a + b := by
  unfold add at h
  split at h
  · exact (Option.some.inj h).symm
  · cases h

lemma sub_eq_some (h : sub a b = some c) : b ≤ a ∧ c = a - b := by
  unfold sub at h
  split at h
  next hle =>
    exact ⟨hle, (Option.some.inj h).symm⟩
  · cases h

lemma mul_eq_some (h : mul a b = some c) : c = a * b := by
  unfold mul at h
  split at h
  · exact (Option.some.inj h).symm
  · cases h

end U64

end Wire
