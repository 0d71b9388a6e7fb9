import Aioduct.Wire.Machine

/-!
# IP addresses

The texts that `IpAddr::from_str` reads.
-/

namespace Wire.Ip

variable (s : Bytes)

def parseOctet : Option Nat :=
  if 1 < s.length && s.head? == some (byte '0') then none
  else if 3 < s.length then none
  else parseDigits 256 s

def parseV4 : Option (List Nat) :=
  let parts := s.splitOn (byte '.')
  if parts.length = 4 then parts.mapM parseOctet else none

def hexDigit (b : UInt8) : Option Nat :=
  if isDigit b then some (b.toNat - 48)
  else if byte 'a' ≤ b && b ≤ byte 'f' then some (b.toNat - 87)
  else if byte 'A' ≤ b && b ≤ byte 'F' then some (b.toNat - 55)
  else none

def parseGroup : Option Nat :=
  if s.isEmpty || 4 < s.length then none
  else s.foldlM (fun n b => (hexDigit b).map (n * 16 + ·)) 0

def v4Groups : List Nat → List Nat
  | [a, b, c, d] => [a * 256 + b, c * 256 + d]
  | _ => []

/-- Groups between colons; the last one may be an address of the old kind. -/
def parseGroups : Option (List Nat) :=
  if s.isEmpty then some []
  else
    let parts := s.splitOn (byte ':')
    let last := parts.getLastD []
    match parts.dropLast.mapM parseGroup with
    | none => none
    | some front =>
      match parseGroup last with
      | some group => some (front ++ [group])
      | none => (parseV4 last).map fun address => front ++ v4Groups address

def parseV6 : Option (List Nat) :=
  match splitOnce (ascii "::") s with
  | none => (parseGroups s).filter (·.length == 8)
  | some (head, tail) =>
    -- an address of the old kind stands at the end only
    if head.contains (byte '.') then none
    else
      match parseGroups head, parseGroups tail with
      | some head, some tail =>
        if head.length + tail.length < 8 then
          some (head ++ List.replicate (8 - head.length - tail.length) 0 ++ tail)
        else none
      | _, _ => none

inductive IpAddr where
  | v4 (octets : List Nat)
  | v6 (groups : List Nat)
  deriving DecidableEq

def parse : Option IpAddr :=
  match parseV4 s with
  | some octets => some (.v4 octets)
  | none => (parseV6 s).map .v6

example : parse (ascii "::ffff:192.0.2.7") =
    some (.v6 [0, 0, 0, 0, 0, 0xffff, 0xc000, 0x207]) := by decide

end Wire.Ip
