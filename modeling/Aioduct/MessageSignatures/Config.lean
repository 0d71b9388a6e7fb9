import Aioduct.MessageSignatures.Context

/-!
# Signing

`message_signatures/config.rs`: the signature base of a message and the two header values made
from its signature.
-/

namespace Aioduct.MessageSignatures

open Wire Http

def validateLabel (label : Bytes) : Except MessageSignatureError Unit :=
  match label with
  | [] => .error (.invalidLabel label)
  | first :: rest =>
    if !(isLowercase first || first == byte '*') then .error (.invalidLabel label)
    else if rest.any fun c => !(isLowercase c || isDigit c || (ascii "_-.*").contains c) then
      .error (.invalidLabel label)
    else .ok ()

structure MessageSignatureConfig where
  label : Bytes
  components : List MessageSignatureComponent := []
  params : MessageSignatureParams := {}
  validLabel : validateLabel label = .ok ()

structure MessageSignatureBase where
  value : Bytes

abbrev MessageSignatureSigner := Bytes → Except MessageSignatureError Bytes

def validateComponentLoop (seen : List Bytes)
    (seenDictionaryKeys : List (HeaderName × Bytes × Bool × Bool)) :
    List MessageSignatureComponent → Except MessageSignatureError Unit
  | [] => .ok ()
  | component :: components => do
    let identifier ← component.identifier
    if seen.contains component.comparisonKey then .error (.duplicateComponent identifier)
    else
      match component.dictionaryKeyIdentity with
      | none => validateComponentLoop (component.comparisonKey :: seen) seenDictionaryKeys components
      | some identity =>
        if seenDictionaryKeys.contains identity then .error (.duplicateComponent identifier)
        else
          validateComponentLoop (component.comparisonKey :: seen) (identity :: seenDictionaryKeys)
            components

variable (components : List MessageSignatureComponent)

def validateComponentSet (allowEmpty : Bool) : Except MessageSignatureError Unit :=
  if components.isEmpty && !allowEmpty then .error .emptyComponents
  else validateComponentLoop [] [] components

def ensureComponentValue (component : MessageSignatureComponent) (value : Bytes) :
    Except MessageSignatureError Unit :=
  if value.contains (byte '\n') || value.contains (byte '\r') then .error .newlineInComponentValue
  else if value.any fun c => isControl c && (c != byte '\t' || !component.isHeaderField) then
    .error .controlCharacterInComponentValue
  else if !component.isHeaderField &&
      (Utf8.whitespace.any (·.isPrefixOf value) || Utf8.whitespace.any (·.isSuffixOf value)) then
    .error .invalidDerivedComponentWhitespace
  else .ok ()

variable [Base64] [FormUrlencoded]

def componentLine (context : MessageSignatureContext) (component : MessageSignatureComponent) :
    Except MessageSignatureError Bytes := do
  let identifier ← component.identifier
  let value ← context.componentValue component
  ensureComponentValue component value
  pure (identifier ++ ascii ": " ++ value)

/-- One line for each component and the `@signature-params` line. -/
def signatureBaseOf
    (signatureParams : Except MessageSignatureError Bytes) (context : MessageSignatureContext) :
    Except MessageSignatureError MessageSignatureBase := do
  validateComponentSet components true
  let lines ← components.mapM (componentLine context)
  let signatureParams ← signatureParams
  let value := (ascii "\n").intercalate
    (lines ++ [ascii "\"@signature-params\": " ++ signatureParams])
  if isAscii value then pure ⟨value⟩ else .error .nonAsciiSignatureBase

namespace MessageSignatureConfig

omit [Base64] [FormUrlencoded] in
def signatureParamsValue (self : MessageSignatureConfig) : Except MessageSignatureError Bytes := do
  let identifiers ← self.components.mapM MessageSignatureComponent.identifier
  let params ← self.params.serialize
  pure ([byte '('] ++ (ascii " ").intercalate identifiers ++ [byte ')'] ++ params)

variable (self : MessageSignatureConfig)

def signatureBaseForContext (context : MessageSignatureContext) :
    Except MessageSignatureError MessageSignatureBase :=
  signatureBaseOf self.components self.signatureParamsValue context

variable (request : MessageSignatureRequestContext)

def signatureBaseForRequestContext : Except MessageSignatureError MessageSignatureBase :=
  self.signatureBaseForContext (.request request.method request.targetUri request.requestTarget
    request.headers request.trailers)

omit [FormUrlencoded] in
def headersFromSignature (signature : Bytes) :
    Except MessageSignatureError MessageSignatureHeaders := do
  validateComponentSet self.components true
  let signatureParams ← self.signatureParamsValue
  let signatureInput := self.label ++ [byte '='] ++ signatureParams
  let signature := self.label ++ ascii "=:" ++ Base64.encode signature ++ [byte ':']
  match HeaderValue.fromStr signatureInput with
  | none => .error (.invalidGeneratedHeader (ascii "Signature-Input"))
  | some signatureInput =>
    match HeaderValue.fromStr signature with
    | none => .error (.invalidGeneratedHeader (ascii "Signature"))
    | some signature => pure ⟨self.label, signatureInput, signature⟩

def signRequestContext
    (signer : MessageSignatureSigner) : Except MessageSignatureError MessageSignatureHeaders := do
  let base ← self.signatureBaseForRequestContext request
  let signature ← signer base.value
  self.headersFromSignature signature

end MessageSignatureConfig

end Aioduct.MessageSignatures
