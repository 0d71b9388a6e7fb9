import Aioduct.StructuredFields.Ast
import Aioduct.Wire.Utf8

/-!
# The Structured Field parser

`structured_fields/parser.rs`. The cursor is the unread input. Every entry point checks that its
input is ASCII, so `byte as char` never widens a byte.
-/

namespace Aioduct.StructuredFields

open Wire Wire.Parser

abbrev FieldParser := Parser StructuredFieldError

structure Number where
  bareItem : BareItem
  isDecimal : Bool

variable (b : UInt8)

def isKeyChar : Bool :=
  isLowercase b || isDigit b || b == byte '_' || b == byte '-' || b == byte '.' || b == byte '*'

def lowercaseHexValue : Option UInt8 :=
  if byte '0' ≤ b && b ≤ byte '9' then some (b - byte '0')
  else if byte 'a' ≤ b && b ≤ byte 'f' then some (b - byte 'a' + 10)
  else none

def discardSp : FieldParser Unit := do
  let _ ← takeWhile (· == byte ' ')

def discardOws : FieldParser Unit := do
  let _ ← takeWhile isOws

def isKeyStart : Bool := isLowercase b || b == byte '*'

def parseKey : FieldParser Bytes := scan .parse isKeyStart isKeyChar

def parseNumber : FieldParser Number := do
  let negative ← consumeIf (byte '-')
  if !(← peek).any isDigit then fail .parse
  else
    let integerDigits ← takeWhile isDigit
    if ← consumeIf (byte '.') then
      if integerDigits.length > 12 then fail .parse
      else
        let fractionDigits ← takeWhile isDigit
        if fractionDigits.isEmpty || fractionDigits.length > 3 then fail .parse
        else pure ⟨.decimal (serializeDecimal negative integerDigits fractionDigits), true⟩
    else if integerDigits.length > 15 then fail .parse
    else pure ⟨.integer (serializeInteger negative integerDigits), false⟩

def parseStringRound (out : Bytes) : FieldParser (Round Bytes BareItem) := do
  match ← consume with
  | none => fail .parse
  | some b =>
    if b = byte '\\' then
      match ← consume with
      | none => fail .parse
      | some next =>
        if next = byte '"' ∨ next = byte '\\' then pure (.again (out ++ [next]))
        else fail .parse
    else if b = byte '"' then pure (.done (.string out))
    else if b ≤ 0x1f ∨ b = 0x7f then fail .parse
    else pure (.again (out ++ [b]))

def parseString : FieldParser BareItem := do
  if ← consumeIf (byte '"') then loop .parse parseStringRound [] else fail .parse

def isTokenStart : Bool := isAlphabetic b || b == byte '*'

def isTokenChar : Bool := isTchar b || b == byte ':' || b == byte '/'

def parseToken : FieldParser BareItem := do
  let token ← scan .parse isTokenStart isTokenChar
  pure (.token token)

def parseByteSequence [Base64] : FieldParser BareItem := do
  if ← consumeIf (byte ':') then
    let content ← takeWhile (· != byte ':')
    if ← consumeIf (byte ':') then
      if content.any (!isBase64Char ·) then fail .parse
      else
        let padded := content ++ List.replicate ((4 - content.length % 4) % 4) (byte '=')
        match Base64.decode padded with
        | some decoded => pure (.byteSequence decoded)
        | none => fail .parse
    else fail .parse
  else fail .parse

def parseBoolean : FieldParser BareItem := do
  if ← consumeIf (byte '?') then
    match ← consume with
    | some b =>
      if b = byte '1' then pure (.boolean true)
      else if b = byte '0' then pure (.boolean false)
      else fail .parse
    | none => fail .parse
  else fail .parse

def parseDate : FieldParser BareItem := do
  if ← consumeIf (byte '@') then
    let number ← parseNumber
    if number.isDecimal then fail .parse
    else
      match number.bareItem with
      | .integer value => pure (.date ([byte '@'] ++ value))
      | _ => fail .parse
  else fail .parse

def parseDisplayStringRound (bytes : Bytes) : FieldParser (Round Bytes BareItem) := do
  match ← consume with
  | none => fail .parse
  | some b =>
    if isControl b ∨ b = 0x7f then fail .parse
    else if b = byte '%' then
      match ← consume with
      | none => fail .parse
      | some high =>
        match ← consume with
        | none => fail .parse
        | some low =>
          match lowercaseHexValue high, lowercaseHexValue low with
          | some high, some low => pure (.again (bytes ++ [(high <<< 4) ||| low]))
          | _, _ => fail .parse
    else if b = byte '"' then
      if Utf8.valid bytes then pure (.done (.displayString bytes)) else fail .parse
    else pure (.again (bytes ++ [b]))

def parseDisplayString : FieldParser BareItem := do
  if ← consumeIf (byte '%') then
    if ← consumeIf (byte '"') then loop .parse parseDisplayStringRound [] else fail .parse
  else fail .parse

def parseComplete {α : Type} (parse : FieldParser α) : FieldParser α := do
  discardSp
  let value ← parse
  discardSp
  if ← isEmpty then pure value else fail .parse

/-- The shape of the entry points: only ASCII input is parsed, and all of it. -/
def parseAscii {α : Type} (parse : FieldParser α) (input : Bytes) : Except StructuredFieldError α :=
  if isAscii input then (parseComplete parse input).map (·.1) else .error .parse

variable [Base64]

def parseBareItem : FieldParser BareItem := do
  match ← peek with
  | none => fail .parse
  | some b =>
    if b = byte '-' ∨ isDigit b then do
      let number ← parseNumber
      pure number.bareItem
    else if b = byte '"' then parseString
    else if isTokenStart b then parseToken
    else if b = byte ':' then parseByteSequence
    else if b = byte '?' then parseBoolean
    else if b = byte '@' then parseDate
    else if b = byte '%' then parseDisplayString
    else fail .parse

/-- The value of a parameter: a missing `=` stands for true. -/
def parseParameterValue : FieldParser BareItem := do
  if ← consumeIf (byte '=') then parseBareItem else pure (.boolean true)

def parseParametersRound (entries : List (Bytes × BareItem)) :
    FieldParser (Round (List (Bytes × BareItem)) Parameters) := do
  if ← consumeIf (byte ';') then
    discardSp
    let key ← parseKey
    let value ← parseParameterValue
    pure (.again (Assoc.replaceOrAppend entries key value))
  else pure (.done ⟨entries⟩)

def parseParameters : FieldParser Parameters := loop .parse parseParametersRound []

def parseItem : FieldParser Item := do
  let bareItem ← parseBareItem
  let parameters ← parseParameters
  pure ⟨bareItem, parameters⟩

def parseInnerListRound (items : List Item) : FieldParser (Round (List Item) InnerList) := do
  discardSp
  match ← peek with
  | none => fail .parse
  | some b =>
    if b = byte ')' then
      let _ ← consume
      let parameters ← parseParameters
      pure (.done ⟨items, parameters⟩)
    else
      let item ← parseItem
      let next ← peek
      if next = some (byte ' ') ∨ next = some (byte ')') then pure (.again (items ++ [item]))
      else fail .parse

def parseInnerList : FieldParser InnerList := do
  if ← consumeIf (byte '(') then loop .parse parseInnerListRound [] else fail .parse

def parseItemOrInnerList : FieldParser ItemOrInnerList := do
  if (← peek) = some (byte '(') then .innerList <$> parseInnerList
  else .item <$> parseItem

/-- The common tail of the list and dictionary loops: the separator before the next member. -/
def nextMember {α : Type} (members : α) : FieldParser (Round α α) := do
  discardOws
  if ← isEmpty then pure (.done members)
  else if ← consumeIf (byte ',') then
    discardOws
    if ← isEmpty then fail .parse else pure (.again members)
  else fail .parse

/-- The value of a dictionary member: a missing `=` stands for true with parameters. -/
def parseMemberValue : FieldParser ItemOrInnerList := do
  if ← consumeIf (byte '=') then parseItemOrInnerList
  else
    let parameters ← parseParameters
    pure (.item ⟨.boolean true, parameters⟩)

def parseDictionaryEntriesRound (members : List (Bytes × ItemOrInnerList)) :
    FieldParser (Round (List (Bytes × ItemOrInnerList)) (List (Bytes × ItemOrInnerList))) := do
  if ← isEmpty then pure (.done members)
  else
    let key ← parseKey
    let member ← parseMemberValue
    nextMember (members ++ [(key, member)])

def parseDictionaryEntries : FieldParser (List (Bytes × ItemOrInnerList)) :=
  loop .parse parseDictionaryEntriesRound []

def parseDictionary : FieldParser Dictionary := do
  let entries ← parseDictionaryEntries
  pure ⟨Assoc.foldIn [] entries⟩

def parseListRound (members : List ItemOrInnerList) :
    FieldParser (Round (List ItemOrInnerList) (List ItemOrInnerList)) := do
  if ← isEmpty then pure (.done members)
  else
    let member ← parseItemOrInnerList
    nextMember (members ++ [member])

def parseList : FieldParser SfList := do
  let members ← loop .parse parseListRound []
  pure ⟨members⟩

variable (input : Bytes)

def parseDictionaryField : Except StructuredFieldError Dictionary :=
  parseAscii parseDictionary input

def parseListField : Except StructuredFieldError SfList := parseAscii parseList input

def parseItemField : Except StructuredFieldError Item := parseAscii parseItem input

def parseFieldValue : StructuredFieldType → Except StructuredFieldError StructuredFieldValue
  | .dictionary => (parseDictionaryField input).map .dictionary
  | .list => (parseListField input).map .list
  | .item => (parseItemField input).map .item

/-- The members of a dictionary as serialized text, in order and with duplicates. -/
def dictionary : Except StructuredFieldError (List (Bytes × Bytes)) :=
  (parseAscii parseDictionaryEntries input).map fun entries =>
    entries.map fun entry => (entry.1, entry.2.serialize)

end Aioduct.StructuredFields
