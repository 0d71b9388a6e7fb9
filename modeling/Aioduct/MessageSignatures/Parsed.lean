import Aioduct.MessageSignatures.Config

/-!
# Parsed signatures

`message_signatures/parsed.rs`: the second, hand-written parser of a `Signature-Input` member. The
`header` in the errors is the field that is being parsed.
-/

namespace Aioduct.MessageSignatures

open Wire Wire.Parser Http StructuredFields

abbrev SignatureInputParser := Parser MessageSignatureError

inductive ParameterValue where
  | string (value : Bytes)
  | integer (value : Int)
  | boolean (value : Bool)
  | other

def malformed {α : Type} (header : HeaderName) : SignatureInputParser α :=
  fail (.malformedSignatureHeader header)

/-- The UTF-8 encoding of `byte as char`. -/
def byteAsChar (b : UInt8) : Bytes :=
  if b < 0x80 then [b] else [(0xc0 : UInt8) ||| (b >>> 6), (0x80 : UInt8) ||| (b &&& 0x3f)]

def asAsciiString (bytes : Bytes) : Bytes := bytes.flatMap byteAsChar

variable (header : HeaderName)

def parseInputStringRound (out : Bytes) : SignatureInputParser (Round Bytes Bytes) := do
  match ← consume with
  | none => malformed header
  | some b =>
    if b = byte '\\' then
      match ← consume with
      | none => malformed header
      | some next =>
        if next = byte '"' ∨ next = byte '\\' then pure (.again (out ++ byteAsChar next))
        else malformed header
    else if b = byte '"' then pure (.done out)
    else if b ≤ 0x1f ∨ b = 0x7f then malformed header
    else pure (.again (out ++ byteAsChar b))

def parseInputString : SignatureInputParser Bytes := do
  if ← consumeIf (byte '"') then
    loop (.malformedSignatureHeader header) (parseInputStringRound header) []
  else malformed header

def parseInputKey : SignatureInputParser Bytes := do
  let key ← scan (.malformedSignatureHeader header) isKeyStart isKeyChar
  pure (asAsciiString key)

def parseInputBoolean : SignatureInputParser Bool := do
  if ← consumeIf (byte '?') then
    match ← consume with
    | some b =>
      if b = byte '1' then pure true else if b = byte '0' then pure false else malformed header
    | none => malformed header
  else malformed header

/-- `SignatureInputParser::parse_number`; `parse::<i64>` fails beyond `i64::MAX`. -/
def parseInputNumber : SignatureInputParser ParameterValue := do
  let negative ← consumeIf (byte '-')
  let integer ← takeWhile isDigit
  if integer.isEmpty then malformed header
  else if ← consumeIf (byte '.') then
    let fraction ← takeWhile isDigit
    if fraction.isEmpty then malformed header else pure .other
  else if digitsValue integer < 2 ^ 63 then
    let value : Int := digitsValue integer
    pure (.integer (if negative then -value else value))
  else malformed header

def parseInputByteSequence : SignatureInputParser Unit := do
  if ← consumeIf (byte ':') then
    let _ ← takeWhile (· != byte ':')
    if ← consumeIf (byte ':') then pure () else malformed header
  else malformed header

def parseInputDisplayStringRound (state : Unit) : SignatureInputParser (Round Unit Unit) := do
  match ← consume with
  | none => malformed header
  | some b =>
    if b = byte '"' then pure (.done ())
    else if b = byte '%' then
      if ((← consume).bind lowercaseHexValue).isNone then malformed header
      else if ((← consume).bind lowercaseHexValue).isNone then malformed header
      else pure (.again state)
    else pure (.again state)

def parseInputDisplayString : SignatureInputParser Unit := do
  if ← consumeIf (byte '%') then
    if ← consumeIf (byte '"') then
      loop (.malformedSignatureHeader header) (parseInputDisplayStringRound header) ()
    else malformed header
  else malformed header

def parseInputToken : SignatureInputParser Unit := do
  let _ ← consume
  let _ ← takeWhile isTokenChar

def parseInputParameterValue : SignatureInputParser ParameterValue := do
  match ← peek with
  | none => malformed header
  | some b =>
    if b = byte '"' then .string <$> parseInputString header
    else if b = byte '?' then .boolean <$> parseInputBoolean header
    else if b = byte '-' ∨ isDigit b then parseInputNumber header
    else if b = byte ':' then do
      parseInputByteSequence header
      pure .other
    else if b = byte '@' then do
      let _ ← consume
      let _ ← parseInputNumber header
      pure .other
    else if b = byte '%' then do
      parseInputDisplayString header
      pure .other
    else if isTokenStart b then do
      parseInputToken
      pure .other
    else malformed header

variable (value : Option ParameterValue)

def requireTrueOrAbsent (header : HeaderName) : Except MessageSignatureError Unit :=
  match value with
  | none | some (.boolean true) => .ok ()
  | _ => .error (.malformedSignatureHeader header)

def requiredStringParameter (header : HeaderName) : Except MessageSignatureError Bytes :=
  match value with
  | some (.string value) => .ok value
  | _ => .error (.malformedSignatureHeader header)

def requiredU64Parameter (header : HeaderName) : Except MessageSignatureError UInt64 :=
  match value with
  | some (.integer value) =>
    if 0 ≤ value then .ok (UInt64.ofNat value.toNat) else .error (.malformedSignatureHeader header)
  | _ => .error (.malformedSignatureHeader header)

def componentParameter (key : Bytes) (value : Option ParameterValue) (header : HeaderName) :
    Except MessageSignatureError MessageSignatureComponentParameter :=
  if key = ascii "sf" then do
    requireTrueOrAbsent value header
    pure .structuredField
  else if key = ascii "key" then do
    pure (.key (← requiredStringParameter value header))
  else if key = ascii "bs" then do
    requireTrueOrAbsent value header
    pure .byteSequence
  else if key = ascii "tr" then do
    requireTrueOrAbsent value header
    pure .trailer
  else if key = ascii "req" then do
    requireTrueOrAbsent value header
    pure .relatedRequest
  else if key = ascii "name" then do
    pure (.name (← requiredStringParameter value header))
  else .error (.malformedSignatureHeader header)

/-- A key with its optional value, after the semicolon. -/
def parseInputParameter : SignatureInputParser (Bytes × Option ParameterValue) := do
  let key ← parseInputKey header
  if ← consumeIf (byte '=') then
    let value ← parseInputParameterValue header
    pure (key, some value)
  else pure (key, none)

def componentFromName (name : Bytes) (header : HeaderName) :
    Except MessageSignatureError MessageSignatureComponent :=
  if name = ascii "@method" then .ok { kind := .method }
  else if name = ascii "@scheme" then .ok { kind := .scheme }
  else if name = ascii "@authority" then .ok { kind := .authority }
  else if name = ascii "@request-target" then .ok { kind := .requestTarget }
  else if name = ascii "@target-uri" then .ok { kind := .targetUri }
  else if name = ascii "@path" then .ok { kind := .path }
  else if name = ascii "@query" then .ok { kind := .query }
  else if name = ascii "@query-param" then .ok { kind := .queryParam }
  else if name = ascii "@status" then .ok { kind := .status }
  else if name.head? = some (byte '@') then
    .error (.unsupportedComponent ([byte '"'] ++ name ++ [byte '"']))
  else if name ≠ lowercase name then .error (.malformedSignatureHeader header)
  else
    match HeaderName.fromBytes name with
    | some name => .ok { kind := .header name }
    | none => .error (.malformedSignatureHeader header)

def parseComponentRound (component : MessageSignatureComponent) :
    SignatureInputParser (Round MessageSignatureComponent MessageSignatureComponent) := do
  if ← consumeIf (byte ';') then
    let (key, value) ← parseInputParameter header
    let parameter ← lift (componentParameter key value header)
    let component ← lift (component.withParsedParameter parameter)
    pure (.again component)
  else pure (.done component)

def parseComponent : SignatureInputParser MessageSignatureComponent := do
  let name ← parseInputString header
  let component ← lift (componentFromName name header)
  loop (.malformedSignatureHeader header) (parseComponentRound header) component

def parseComponentListRound (components : List MessageSignatureComponent) :
    SignatureInputParser
      (Round (List MessageSignatureComponent) (List MessageSignatureComponent)) := do
  let component ← parseComponent header
  let components := components ++ [component]
  match ← peek with
  | none => malformed header
  | some b =>
    if b = byte ')' then do
      let _ ← consume
      pure (.done components)
    else if b = byte ' ' then do
      let _ ← consume
      match ← peek with
      | none => malformed header
      | some next =>
        if next = byte ' ' ∨ next = byte ')' then malformed header
        else pure (.again components)
    else malformed header

def parseComponentList : SignatureInputParser (List MessageSignatureComponent) := do
  if ← consumeIf (byte '(') then
    if ← consumeIf (byte ')') then pure []
    else loop (.malformedSignatureHeader header) (parseComponentListRound header) []
  else malformed header

variable (params : MessageSignatureParams)

def setSignatureParam (key : Bytes)
    (value : Option ParameterValue) (header : HeaderName) :
    Except MessageSignatureError MessageSignatureParams :=
  if key = ascii "created" then do
    pure { params with created := some (← requiredU64Parameter value header) }
  else if key = ascii "expires" then do
    pure { params with expires := some (← requiredU64Parameter value header) }
  else if key = ascii "nonce" then do
    pure { params with nonce := some (← requiredStringParameter value header) }
  else if key = ascii "alg" then do
    pure { params with algorithm := some (← requiredStringParameter value header) }
  else if key = ascii "keyid" then do
    pure { params with keyId := some (← requiredStringParameter value header) }
  else if key = ascii "tag" then do
    pure { params with tag := some (← requiredStringParameter value header) }
  else .ok params

def parseSignatureParamsRound :
    SignatureInputParser (Round MessageSignatureParams MessageSignatureParams) := do
  if ← consumeIf (byte ';') then
    let (key, value) ← parseInputParameter header
    let params ← lift (setSignatureParam params key value header)
    pure (.again params)
  else pure (.done params)

def parseSignatureParams : SignatureInputParser MessageSignatureParams :=
  loop (.malformedSignatureHeader header) (parseSignatureParamsRound header) {}

def parseSignatureInput :
    SignatureInputParser (List MessageSignatureComponent × MessageSignatureParams) := do
  let components ← parseComponentList header
  let params ← parseSignatureParams header
  if ← isEmpty then pure (components, params) else malformed header

def parseSignatureInputMember (member : Bytes) :
    Except MessageSignatureError (List MessageSignatureComponent × MessageSignatureParams) :=
  (parseSignatureInput signatureInputName member).map (·.1)

structure MessageSignature where
  label : Bytes
  components : List MessageSignatureComponent
  params : MessageSignatureParams
  signature : Bytes
  signatureParamsValue : Bytes

def findLabel (entries : List (Bytes × Bytes)) (label : Bytes) :
    Except MessageSignatureError Bytes :=
  match Assoc.get entries label with
  | some value => .ok value
  | none => .error (.missingSignatureLabel label)

variable [Base64]

def parseSignatureBytes (member : Bytes) : Except MessageSignatureError Bytes :=
  match member with
  | [] => .error (.malformedSignatureHeader signatureName)
  | first :: rest =>
    if first ≠ byte ':' ∨ rest.getLast? ≠ some (byte ':') then
      .error (.malformedSignatureHeader signatureName)
    else
      let encoded := rest.dropLast
      if encoded.contains (byte ';') then .error (.malformedSignatureHeader signatureName)
      else
        match Base64.decode encoded with
        | some signature => .ok signature
        | none => .error (.malformedSignatureHeader signatureName)

namespace MessageSignature

def fromHeaders (headers : HeaderMap) (label : Bytes) :
    Except MessageSignatureError MessageSignature := do
  validateLabel label
  let signatureInput ← existingDictionary headers signatureInputName
  let signature ← existingDictionary headers signatureName
  rejectDuplicateLabels signatureInputName [] signatureInput
  rejectDuplicateLabels signatureName [] signature
  ensureMatchingLabels signatureInput signature
  let signatureParamsValue ← findLabel signatureInput label
  let signatureValue ← findLabel signature label
  let (components, params) ← parseSignatureInputMember signatureParamsValue
  validateComponentSet components true
  let signature ← parseSignatureBytes signatureValue
  pure ⟨label, components, params, signature, signatureParamsValue⟩

omit [Base64] in
def withStructuredFieldType (self : MessageSignature) (name : HeaderName)
    (fieldType : MessageSignatureStructuredFieldType) : MessageSignature :=
  { self with
    components := self.components.map
      (.setStructuredFieldTypeForHeader name fieldType) }

omit [Base64] in
/-- `with_structured_field_type` for each field of a list. -/
def withStructuredFieldTypes (self : MessageSignature)
    (types : List (HeaderName × MessageSignatureStructuredFieldType)) : MessageSignature :=
  types.foldl (fun signature entry => signature.withStructuredFieldType entry.1 entry.2) self

variable [FormUrlencoded] (self : MessageSignature)

def signatureBaseForContext (context : MessageSignatureContext) :
    Except MessageSignatureError MessageSignatureBase :=
  signatureBaseOf self.components (.ok self.signatureParamsValue) context

variable (request : MessageSignatureRequestContext)

def signatureBaseForRequestContext : Except MessageSignatureError MessageSignatureBase :=
  self.signatureBaseForContext (.request request.method request.targetUri request.requestTarget
    request.headers request.trailers)

variable (response : MessageSignatureResponseContext)

def responseSignatureBaseForContext : Except MessageSignatureError MessageSignatureBase :=
  self.signatureBaseForContext (.response response.status response.headers response.trailers)

def requestResponseSignatureBaseForContext : Except MessageSignatureError MessageSignatureBase :=
  self.signatureBaseForContext (.fromRequestResponseContexts request response)

end MessageSignature

end Aioduct.MessageSignatures
