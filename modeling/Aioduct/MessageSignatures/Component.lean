import Aioduct.MessageSignatures.Params
import Aioduct.StructuredFields.Parser

/-!
# Covered components

`message_signatures/component.rs`: what a signature covers.
-/

namespace Aioduct.MessageSignatures

open Wire Http StructuredFields

inductive MessageSignatureComponentParameter where
  | structuredField
  | key (key : Bytes)
  | byteSequence
  | trailer
  | relatedRequest
  | name (name : Bytes)
  deriving DecidableEq

inductive MessageSignatureStructuredFieldType where
  | dictionary
  | list
  | item
  deriving DecidableEq

inductive MessageSignatureComponentKind where
  | method
  | scheme
  | authority
  | requestTarget
  | targetUri
  | path
  | query
  | queryParam
  | status
  | header (name : HeaderName)
  deriving DecidableEq

inductive MessageSignatureComponentTarget where
  | request
  | response
  | requestOrResponse
  deriving DecidableEq

structure MessageSignatureComponent where
  kind : MessageSignatureComponentKind
  parameters : List MessageSignatureComponentParameter := []
  structuredFieldType : Option MessageSignatureStructuredFieldType := none

def MessageSignatureStructuredFieldType.intoStructuredFieldType :
    MessageSignatureStructuredFieldType → StructuredFieldType
  | .dictionary => .dictionary
  | .list => .list
  | .item => .item

namespace MessageSignatureComponentParameter

def writeTo : MessageSignatureComponentParameter → Except MessageSignatureError Bytes
  | .structuredField => .ok (ascii ";sf")
  | .key value => do
    let text ← serializeSfString value
    pure (ascii ";key=" ++ text)
  | .byteSequence => .ok (ascii ";bs")
  | .trailer => .ok (ascii ";tr")
  | .relatedRequest => .ok (ascii ";req")
  | .name value => do
    let text ← serializeSfString value
    pure (ascii ";name=" ++ text)

def comparisonKey : MessageSignatureComponentParameter → Bytes
  | .structuredField => ascii "sf"
  | .key value => ascii "key:" ++ numeral value.length ++ [byte ':'] ++ value
  | .byteSequence => ascii "bs"
  | .trailer => ascii "tr"
  | .relatedRequest => ascii "req"
  | .name value => ascii "name:" ++ numeral value.length ++ [byte ':'] ++ value

end MessageSignatureComponentParameter

def validateComponentString (value : Bytes) : Except MessageSignatureError Unit := do
  let _ ← serializeSfString value
  pure ()

def upperHexDigit (n : UInt8) : UInt8 := (ascii "0123456789ABCDEF").getD n.toNat 0

def encodeQueryParamComponent (value : Bytes) : Bytes :=
  value.flatMap fun b =>
    if isAlphanumeric b || (ascii "*-._").contains b then [b]
    else [byte '%', upperHexDigit (b >>> 4), upperHexDigit (b &&& 0x0f)]

def MessageSignatureComponentKind.componentName : MessageSignatureComponentKind → Bytes
  | .method => ascii "@method"
  | .scheme => ascii "@scheme"
  | .authority => ascii "@authority"
  | .requestTarget => ascii "@request-target"
  | .targetUri => ascii "@target-uri"
  | .path => ascii "@path"
  | .query => ascii "@query"
  | .queryParam => ascii "@query-param"
  | .status => ascii "@status"
  | .header name => lowercase name.bytes

namespace MessageSignatureComponent

variable (self : MessageSignatureComponent)

def target : MessageSignatureComponentTarget :=
  match self.kind with
  | .header _ => .requestOrResponse
  | .status => .response
  | _ => .request

def relatedRequestParameterCount : Nat := self.parameters.count .relatedRequest

def trailerParameterCount : Nat := self.parameters.count .trailer

def hasRelatedRequestParameter : Bool := 0 < self.relatedRequestParameterCount

def hasTrailerParameter : Bool := 0 < self.trailerParameterCount

def withoutRelatedRequestParameter : MessageSignatureComponent :=
  { self with parameters := self.parameters.filter (· ≠ .relatedRequest) }

def withoutTrailerParameter : MessageSignatureComponent :=
  { self with parameters := self.parameters.filter (· ≠ .trailer) }

def hasParameters : Bool := !self.parameters.isEmpty

def isHeaderField : Bool :=
  match self.kind with
  | .header _ => true
  | _ => false

def queryParamName : Option Bytes :=
  match self.kind, self.parameters with
  | .queryParam, [.name name] => some name
  | _, _ => none

/-- The loop of `dictionary_key`: at most one key and one `;sf`, beside `;tr` and `;req`. -/
def dictionaryKeyLoop (key : Option Bytes) (structuredField : Bool) :
    List MessageSignatureComponentParameter → Option Bytes
  | [] => key
  | .structuredField :: parameters =>
    if structuredField then none else dictionaryKeyLoop key true parameters
  | .key value :: parameters =>
    if key.isSome then none else dictionaryKeyLoop (some value) structuredField parameters
  | .trailer :: parameters | .relatedRequest :: parameters =>
    dictionaryKeyLoop key structuredField parameters
  | .byteSequence :: _ | .name _ :: _ => none

def dictionaryKey : Option Bytes :=
  if self.isHeaderField then dictionaryKeyLoop none false self.parameters else none

def hasStructuredFieldParameter : Bool := self.parameters.contains .structuredField

def setStructuredFieldTypeForHeader (name : HeaderName)
    (fieldType : MessageSignatureStructuredFieldType) (self : MessageSignatureComponent) :
    MessageSignatureComponent :=
  if self.kind = .header name ∧ self.hasStructuredFieldParameter then
    { self with structuredFieldType := some fieldType }
  else self

def dictionaryKeyIdentity : Option (HeaderName × Bytes × Bool × Bool) :=
  match self.kind with
  | .header name =>
    self.dictionaryKey.map
      (name, ·, self.hasTrailerParameter, self.hasRelatedRequestParameter)
  | _ => none

def withParsedParameter (parameter : MessageSignatureComponentParameter) :
    Except MessageSignatureError MessageSignatureComponent := do
  match parameter with
  | .key value | .name value => validateComponentString value
  | .structuredField | .byteSequence | .trailer | .relatedRequest => pure ()
  pure { self with parameters := self.parameters ++ [parameter] }

def hasOnlyByteSequenceParameter : Bool := self.parameters = [.byteSequence]

def hasOnlyStructuredFieldParameter : Bool := self.parameters = [.structuredField]

def identifier : Except MessageSignatureError Bytes := do
  let parameters ← self.parameters.mapM MessageSignatureComponentParameter.writeTo
  pure ([byte '"'] ++ self.kind.componentName ++ [byte '"'] ++ parameters.flatten)

def comparisonKey (self : MessageSignatureComponent) : Bytes :=
  let name := self.kind.componentName
  let keys := self.parameters.map MessageSignatureComponentParameter.comparisonKey
  let parameters := keys.insertionSort (fun s t => lexLe s t = true)
  if parameters.isEmpty then name else name ++ [byte ';'] ++ (ascii ";").intercalate parameters

end MessageSignatureComponent

end Aioduct.MessageSignatures
