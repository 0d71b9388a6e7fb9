import Aioduct.Wire.Base64
import Aioduct.Wire.Parser
import Aioduct.Wire.Assoc

/-!
# Structured Field values

`structured_fields/ast.rs`. Strings are lists of bytes; `SfList` is the source's `List`.
-/

namespace Aioduct.StructuredFields

open Wire

inductive StructuredFieldError where
  | parse
  deriving DecidableEq, Repr

inductive StructuredFieldType where
  | dictionary
  | list
  | item
  deriving DecidableEq, Repr

inductive BareItem where
  | integer (value : Bytes)
  | decimal (value : Bytes)
  | string (value : Bytes)
  | token (value : Bytes)
  | byteSequence (value : Bytes)
  | boolean (value : Bool)
  | date (value : Bytes)
  | displayString (value : Bytes)
  deriving DecidableEq, Repr

structure Parameters where
  entries : List (Bytes × BareItem) := []
  deriving DecidableEq, Repr

structure Item where
  bareItem : BareItem
  parameters : Parameters
  deriving DecidableEq, Repr

structure InnerList where
  items : List Item
  parameters : Parameters
  deriving DecidableEq, Repr

inductive ItemOrInnerList where
  | item (value : Item)
  | innerList (value : InnerList)
  deriving DecidableEq, Repr

structure SfList where
  members : List ItemOrInnerList
  deriving DecidableEq, Repr

structure Dictionary where
  entries : List (Bytes × ItemOrInnerList)
  deriving DecidableEq, Repr

inductive StructuredFieldValue where
  | dictionary (value : Dictionary)
  | list (value : SfList)
  | item (value : Item)
  deriving DecidableEq, Repr

def stripLeadingZeroes : Bytes → Bytes
  | [] => ascii "0"
  | [d] => [d]
  | d :: e :: rest => if d = byte '0' then stripLeadingZeroes (e :: rest) else d :: e :: rest

def stripTrailingZeroes (digits : Bytes) : Bytes := (stripLeadingZeroes digits.reverse).reverse

def serializeInteger (negative : Bool) (digits : Bytes) : Bytes :=
  let digits := stripLeadingZeroes digits
  (if negative && digits != ascii "0" then [byte '-'] else []) ++ digits

def serializeDecimal (negative : Bool) (integerDigits fractionDigits : Bytes) : Bytes :=
  let integerDigits := stripLeadingZeroes integerDigits
  let fractionDigits := stripTrailingZeroes fractionDigits
  let hasNonZeroDigit := integerDigits != ascii "0" || fractionDigits.any (· != byte '0')
  (if negative && hasNonZeroDigit then [byte '-'] else []) ++
    integerDigits ++ [byte '.'] ++ fractionDigits

def escapeStringByte (b : UInt8) : Bytes :=
  if b = byte '"' ∨ b = byte '\\' then [byte '\\', b] else [b]

def serializeString (value : Bytes) : Bytes :=
  [byte '"'] ++ value.flatMap escapeStringByte ++ [byte '"']

def hexDigit (n : UInt8) : UInt8 := (ascii "0123456789abcdef").getD n.toNat 0

def escapeDisplayByte (b : UInt8) : Bytes :=
  if b = byte '%' ∨ b = byte '"' ∨ b ≤ 0x1f ∨ 0x7f ≤ b then
    [byte '%', hexDigit (b >>> 4), hexDigit (b &&& 0x0f)]
  else [b]

def serializeDisplayString (value : Bytes) : Bytes :=
  ascii "%\"" ++ value.flatMap escapeDisplayByte ++ [byte '"']

/-- The leading `?1` of a member is elided when nothing or a parameter follows it. -/
def serializeDictionaryMember (key member : Bytes) : Bytes :=
  match member.dropPrefix? (ascii "?1") with
  | some parameters =>
    if parameters.isEmpty || parameters.head? == some (byte ';') then key ++ parameters
    else key ++ [byte '='] ++ member
  | none => key ++ [byte '='] ++ member

def serializeDictionary (entries : List (Bytes × Bytes)) : Bytes :=
  (ascii ", ").intercalate (entries.map fun entry => serializeDictionaryMember entry.1 entry.2)

variable [Base64]

def BareItem.serialize : BareItem → Bytes
  | .integer value | .decimal value | .token value | .date value => value
  | .string value => serializeString value
  | .byteSequence value => [byte ':'] ++ Base64.encode value ++ [byte ':']
  | .boolean true => ascii "?1"
  | .boolean false => ascii "?0"
  | .displayString value => serializeDisplayString value

def BareItem.isBooleanTrue : BareItem → Bool
  | .boolean true => true
  | _ => false

def serializeParameter (entry : Bytes × BareItem) : Bytes :=
  [byte ';'] ++ entry.1 ++
    if entry.2.isBooleanTrue then [] else [byte '='] ++ entry.2.serialize

def Parameters.serialize (parameters : Parameters) : Bytes :=
  parameters.entries.flatMap serializeParameter

def Item.serialize (item : Item) : Bytes := item.bareItem.serialize ++ item.parameters.serialize

def InnerList.serialize (list : InnerList) : Bytes :=
  [byte '('] ++ (ascii " ").intercalate (list.items.map Item.serialize) ++ [byte ')'] ++
    list.parameters.serialize

def ItemOrInnerList.serialize : ItemOrInnerList → Bytes
  | .item value => value.serialize
  | .innerList value => value.serialize

def Dictionary.member (dictionary : Dictionary) (key : Bytes) : Option ItemOrInnerList :=
  Assoc.get dictionary.entries key

def Dictionary.serialize (dictionary : Dictionary) : Bytes :=
  (ascii ", ").intercalate
    (dictionary.entries.map fun entry => serializeDictionaryMember entry.1 entry.2.serialize)

def SfList.serialize (list : SfList) : Bytes :=
  (ascii ", ").intercalate (list.members.map ItemOrInnerList.serialize)

def StructuredFieldValue.serialize : StructuredFieldValue → Bytes
  | .dictionary value => value.serialize
  | .list value => value.serialize
  | .item value => value.serialize

end Aioduct.StructuredFields
