import Aioduct.Wire.Decimal
import Aioduct.Wire.Utf8

/-!
# Text

Strings as lists of characters, with the trimming and splitting that file names and links need.
-/

namespace Wire

abbrev Text := List Char

namespace Text

variable (c : Char)

/-- `char::is_whitespace`: the property `White_Space`. -/
def isWhitespace : Bool :=
  let n := c.toNat
  (9 ≤ n && n ≤ 13) || n == 0x20 || n == 0x85 || n == 0xA0 || n == 0x1680 ||
    (0x2000 ≤ n && n ≤ 0x200A) || n == 0x2028 || n == 0x2029 || n == 0x202F || n == 0x205F ||
    n == 0x3000

/-- `char::is_control`: the category `Cc`. -/
def isControl : Bool := c.toNat < 0x20 || (0x7F ≤ c.toNat && c.toNat < 0xA0)

def trimMatches (p : Char → Bool) (s : Text) : Text := (s.dropWhile p).rdropWhile p

variable (s : Text)

def trim : Text := s.trimMatches isWhitespace

def beforeFirst : Text := s.takeWhile (· != c)

def afterLast : Text := s.rtakeWhile (· != c)

def ofAscii (s : Bytes) : Text := s.map fun b => Char.ofNat b.toNat

def decimal (n : Nat) : Text := ofAscii (numeral n)

lemma decimal_ne_nil (n : Nat) : decimal n ≠ [] := by
  intro h
  exact numeral_ne_nil n (List.map_eq_nil_iff.mp h)

lemma forall_mem_decimal {P : Char → Prop} (h : ∀ d : Fin 10, P (Char.ofNat (48 + d))) (n : Nat) :
    ∀ c ∈ decimal n, P c := by
  intro c hc
  obtain ⟨b, hb, rfl⟩ := List.mem_map.mp hc
  have hdig := isDigit_of_mem_numeral n b hb
  simp only [isDigit, Bool.and_eq_true, decide_eq_true_eq, UInt8.le_iff_toNat_le] at hdig
  have hl : 48 ≤ b.toNat := hdig.1
  have hh : b.toNat ≤ 57 := hdig.2
  have hd := h ⟨b.toNat - 48, by omega⟩
  rwa [show 48 + (b.toNat - 48) = b.toNat by omega] at hd

lemma beforeFirst_append (s t : Text) : beforeFirst c (s ++ c :: t) = beforeFirst c s := by
  unfold beforeFirst
  rw [List.takeWhile_append]
  split
  · next hlen =>
    rw [(List.takeWhile_prefix _).eq_of_length hlen]
    simp
  · rfl

def encode : Bytes := s.flatMap String.utf8EncodeChar

def leadBits (b : UInt8) : Nat :=
  if b < 0x80 then b.toNat
  else if b < 0xE0 then b.toNat - 0xC0
  else if b < 0xF0 then b.toNat - 0xE0
  else b.toNat - 0xF0

/-- `code` is what has been read of the character that the automaton is in. -/
def decodeFrom : Utf8.State → Nat → Bytes → Option Text
  | .start, _, [] => some []
  | .more .., _, [] => none
  | state, code, b :: s =>
    let code := match state with
      | .start => leadBits b
      | .more .. => code * 64 + (b.toNat - 0x80)
    match Utf8.advance state b with
    | none => none
    | some .start => (decodeFrom .start 0 s).map (Char.ofNat code :: ·)
    | some next => decodeFrom next code s

def decode (s : Bytes) : Option Text := decodeFrom .start 0 s

end Text

end Wire
