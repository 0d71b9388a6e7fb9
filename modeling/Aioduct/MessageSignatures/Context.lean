import Aioduct.Http.Uri
import Aioduct.MessageSignatures.Component
import Aioduct.MessageSignatures.Headers

/-!
# Component values

`message_signatures/context.rs`: the value of a covered component in a request, in a response,
or in a response with its related request.
-/

namespace Aioduct.MessageSignatures

open Wire Http StructuredFields

/-- `url::form_urlencoded::parse`: the decoded name and value pairs of a query. -/
class FormUrlencoded where
  parse : Bytes → List (Bytes × Bytes)

def plusToSpace (b : UInt8) : UInt8 := if b = byte '+' then byte ' ' else b

/-- Decode `%XX` and `+`; bytes that are not part of an escape stay. -/
def decodeUrlencoded : Bytes → Bytes
  | b :: high :: low :: s =>
    if b = byte '%' then
      match lowercaseHexValue (toLower high), lowercaseHexValue (toLower low) with
      | some high, some low => ((high <<< 4) ||| low) :: decodeUrlencoded s
      | _, _ => b :: decodeUrlencoded (high :: low :: s)
    else plusToSpace b :: decodeUrlencoded (high :: low :: s)
  | s => s.map plusToSpace

/-- The algorithm of the URL standard. -/
@[reducible] def FormUrlencoded.standard : FormUrlencoded where
  parse query :=
    ((query.splitOn (byte '&')).filter (!·.isEmpty)).map fun pair =>
      let name := pair.takeWhile (· != byte '=')
      let value := (pair.dropWhile (· != byte '=')).drop 1
      (Utf8.lossy (decodeUrlencoded name), Utf8.lossy (decodeUrlencoded value))

structure MessageSignatureRequestContext where
  method : Method
  targetUri : Uri
  requestTarget : Uri
  headers : HeaderMap
  trailers : Option HeaderMap := none
  body : Option Bytes := none

structure MessageSignatureResponseContext where
  status : UInt16
  headers : HeaderMap
  trailers : Option HeaderMap := none
  body : Option Bytes := none

inductive MessageSignatureContext where
  | request (method : Method) (targetUri requestTarget : Uri) (headers : HeaderMap)
      (trailers : Option HeaderMap)
  | response (status : UInt16) (headers : HeaderMap) (trailers : Option HeaderMap)
  | requestResponse (method : Method) (targetUri requestTarget : Uri) (requestHeaders : HeaderMap)
      (requestTrailers : Option HeaderMap) (status : UInt16) (responseHeaders : HeaderMap)
      (responseTrailers : Option HeaderMap)

inductive MessageSignatureContextKind where
  | request
  | response

def MessageSignatureContext.fromRequestResponseContexts
    (request : MessageSignatureRequestContext) (response : MessageSignatureResponseContext) :
    MessageSignatureContext :=
  .requestResponse request.method request.targetUri request.requestTarget request.headers
    request.trailers response.status response.headers response.trailers

def unsupportedComponent {α : Type} (component : MessageSignatureComponent) :
    Except MessageSignatureError α := do
  .error (.unsupportedComponent (← component.identifier))

def unsupportedComponentParameters {α : Type} (component : MessageSignatureComponent) :
    Except MessageSignatureError α := do
  .error (.unsupportedComponentParameters (← component.identifier))

def ensureComponentTarget (component : MessageSignatureComponent) (identifier : Bytes)
    (context : MessageSignatureContextKind) : Except MessageSignatureError Unit :=
  match context, component.target with
  | .request, .response => .error (.componentNotAvailable identifier (ascii "request"))
  | .response, .request => .error (.componentNotAvailable identifier (ascii "response"))
  | _, _ => .ok ()

def canonicalAuthority (uri : Uri) : Except MessageSignatureError Bytes :=
  match uri.authority with
  | none => .error .missingAuthority
  | some authority =>
    let scheme := uri.scheme.map lowercase
    let host := lowercase authority.host
    match authority.port with
    | none => .ok host
    | some port =>
      if (scheme = some (ascii "http") ∧ port = 80) ∨ (scheme = some (ascii "https") ∧ port = 443)
      then .ok host
      else .ok (host ++ [byte ':'] ++ numeral port.toNat)

def queryParamLoop (name : Bytes) (value : Option Bytes) :
    List (Bytes × Bytes) → Except MessageSignatureError Bytes
  | [] => match value with
    | some value => .ok value
    | none => .error (.missingQueryParam name)
  | (queryName, queryValue) :: pairs =>
    if encodeQueryParamComponent queryName = name then
      if value.isSome then .error (.duplicateQueryParam name)
      else queryParamLoop name (some (encodeQueryParamComponent queryValue)) pairs
    else queryParamLoop name value pairs

def queryParamValue [FormUrlencoded] (component : MessageSignatureComponent) (targetUri : Uri) :
    Except MessageSignatureError Bytes :=
  match component.queryParamName with
  | none => unsupportedComponentParameters component
  | some name =>
    match targetUri.query with
    | none => .error (.missingQueryParam name)
    | some query => queryParamLoop name none (FormUrlencoded.parse query)

def normalizeFieldValue (value : Bytes) : Bytes := trim isOws value

def canonicalHeaderValue (headers : HeaderMap) (name : HeaderName) :
    Except MessageSignatureError Bytes := do
  let out ← (headers.getAll name).mapM fun value => do
    let value ← requireStr (.unsupportedHeaderValue name) value
    let value := normalizeFieldValue value
    if value.contains (byte '\n') || value.contains (byte '\r') then
      .error .newlineInComponentValue
    else pure value
  if out.isEmpty then .error (.missingHeader name) else pure ((ascii ", ").intercalate out)

variable [Base64] (headers : HeaderMap) (name : HeaderName)

def canonicalHeaderDictionaryMemberValue (key : Bytes) : Except MessageSignatureError Bytes := do
  let value ← canonicalHeaderValue headers name
  match parseDictionaryField value with
  | .error _ => .error (.malformedStructuredField name)
  | .ok dictionary =>
    match dictionary.member key with
    | some member => pure member.serialize
    | none => .error (.missingDictionaryKey name key)

def canonicalHeaderStructuredFieldValue
    (fieldType : MessageSignatureStructuredFieldType) : Except MessageSignatureError Bytes := do
  let value ← canonicalHeaderValue headers name
  match parseFieldValue value fieldType.intoStructuredFieldType with
  | .error _ => .error (.malformedStructuredField name)
  | .ok value => pure value.serialize

def canonicalHeaderByteSequenceValue : Except MessageSignatureError Bytes :=
  let out := (headers.getAll name).map fun value =>
    [byte ':'] ++ Base64.encode (trim isOws value.bytes) ++ [byte ':']
  if out.isEmpty then .error (.missingHeader name) else .ok ((ascii ", ").intercalate out)

variable (component : MessageSignatureComponent)

/-- The fields a component reads: headers, or trailers with `;tr`. -/
def componentFields (headers : HeaderMap) (trailers : Option HeaderMap) :
    Except MessageSignatureError HeaderMap :=
  if component.hasTrailerParameter then
    match trailers with
    | some trailers => .ok trailers
    | none => do .error (.componentNotAvailable (← component.identifier) (ascii "trailers"))
  else .ok headers

/-- The component without `;tr`, which only selects the fields. -/
def fieldComponent : MessageSignatureComponent :=
  if component.hasTrailerParameter then component.withoutTrailerParameter else component

/-- The value of a component without `;tr`; `original` is named in the error. -/
def fieldComponentValue (original : MessageSignatureComponent) (fields : HeaderMap)
    (name : HeaderName) : Except MessageSignatureError Bytes :=
  match component.dictionaryKey with
  | some key => canonicalHeaderDictionaryMemberValue fields name key
  | none =>
    if component.hasOnlyStructuredFieldParameter then
      match component.structuredFieldType with
      | none => .error (.unknownStructuredFieldType name)
      | some fieldType => canonicalHeaderStructuredFieldValue fields name fieldType
    else if component.hasOnlyByteSequenceParameter then
      canonicalHeaderByteSequenceValue fields name
    else if component.hasParameters then unsupportedComponentParameters original
    else canonicalHeaderValue fields name

def headerComponentValue (headers : HeaderMap) (trailers : Option HeaderMap) (name : HeaderName) :
    Except MessageSignatureError Bytes :=
  if 1 < component.trailerParameterCount then unsupportedComponentParameters component
  else do
    let fields ← componentFields component headers trailers
    fieldComponentValue (fieldComponent component) component fields name

variable [FormUrlencoded]

def requestComponentValue (component : MessageSignatureComponent) (method : Method)
    (targetUri requestTarget : Uri) (headers : HeaderMap) (trailers : Option HeaderMap) :
    Except MessageSignatureError Bytes :=
  match component.kind with
  | .queryParam => queryParamValue component targetUri
  | .header name => headerComponentValue component headers trailers name
  | kind =>
    if component.hasParameters then unsupportedComponentParameters component
    else
      match kind with
      | .method => .ok method.bytes
      | .scheme =>
        match targetUri.scheme with
        | some scheme => .ok (lowercase scheme)
        | none => .error .missingScheme
      | .authority => canonicalAuthority targetUri
      | .requestTarget => .ok requestTarget.display
      | .targetUri => .ok targetUri.display
      | .path => .ok (if targetUri.path.isEmpty then ascii "/" else targetUri.path)
      | .query =>
        match targetUri.query with
        | some query => .ok ([byte '?'] ++ query)
        | none => .ok (ascii "?")
      | _ => unsupportedComponent component

omit [FormUrlencoded] in
def responseComponentValue (component : MessageSignatureComponent) (status : UInt16)
    (headers : HeaderMap) (trailers : Option HeaderMap) : Except MessageSignatureError Bytes :=
  match component.kind with
  | .status =>
    if component.hasParameters then unsupportedComponentParameters component
    else .ok (numeral status.toNat)
  | .header name => headerComponentValue component headers trailers name
  | _ => unsupportedComponent component

namespace MessageSignatureContext

def componentValue (self : MessageSignatureContext) (component : MessageSignatureComponent) :
    Except MessageSignatureError Bytes := do
  let identifier ← component.identifier
  if 1 < component.relatedRequestParameterCount then unsupportedComponentParameters component
  else
    match self with
    | .request method targetUri requestTarget headers trailers =>
      if component.hasRelatedRequestParameter then unsupportedComponentParameters component
      else do
        ensureComponentTarget component identifier .request
        requestComponentValue component method targetUri requestTarget headers trailers
    | .response status headers trailers =>
      if component.hasRelatedRequestParameter then
        .error (.componentNotAvailable identifier (ascii "response"))
      else do
        ensureComponentTarget component identifier .response
        responseComponentValue component status headers trailers
    | .requestResponse method targetUri requestTarget requestHeaders requestTrailers status
        responseHeaders responseTrailers =>
      if component.hasRelatedRequestParameter then
        if component.target = .response then unsupportedComponentParameters component
        else
          requestComponentValue component.withoutRelatedRequestParameter method targetUri
            requestTarget requestHeaders requestTrailers
      else do
        ensureComponentTarget component identifier .response
        responseComponentValue component status responseHeaders responseTrailers

end MessageSignatureContext

end Aioduct.MessageSignatures
