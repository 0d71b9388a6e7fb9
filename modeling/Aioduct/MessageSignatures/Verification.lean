import Aioduct.DigestFields

/-!
# Verification

`message_signatures/verification.rs`: a parsed signature is checked against a policy, and the
digests it covers are compared with the attached bodies.
-/

namespace Aioduct.MessageSignatures

open Wire Http DigestFields

structure MessageSignatureVerificationInput where
  label : Bytes
  params : MessageSignatureParams
  signatureBase : Bytes
  signature : Bytes

abbrev MessageSignatureVerifier :=
  MessageSignatureVerificationInput → Except MessageSignatureError Bool

structure MessageSignatureVerificationPolicy where
  requiredComponents : List MessageSignatureComponent := []
  structuredFieldTypes : List (HeaderName × MessageSignatureStructuredFieldType) := []
  acceptedAlgorithms : List Bytes := []
  acceptedKeyIds : List Bytes := []
  validationTime : Option UInt64 := none
  maxAge : Option UInt64 := none
  clockSkew : UInt64 := 0
  requireCreated : Bool := false

def saturatingAdd (x y : UInt64) : UInt64 :=
  if x.toNat + y.toNat < 2 ^ 64 then x + y else UInt64.ofNat (2 ^ 64 - 1)

namespace MessageSignatureVerificationPolicy

variable (self : MessageSignatureVerificationPolicy)

def validateRequiredComponents (components : List MessageSignatureComponent) :
    List MessageSignatureComponent → Except MessageSignatureError Unit
  | [] => .ok ()
  | required :: rest =>
    if components.all fun component => component.comparisonKey != required.comparisonKey then do
      .error (.missingRequiredComponent (← required.identifier))
    else validateRequiredComponents components rest

/-- The shape of `validate_algorithm` and `validate_key_id`: nothing to check without accepted
values, and otherwise the parameter is present and one of them. -/
def validateAccepted (e : Option Bytes → MessageSignatureError) (accepted : List Bytes)
    (parameter : Option Bytes) : Except MessageSignatureError Unit :=
  if accepted.isEmpty then .ok ()
  else
    match parameter with
    | none => .error (e none)
    | some value => if accepted.contains value then .ok () else .error (e (some value))

def validateAlgorithm (params : MessageSignatureParams) : Except MessageSignatureError Unit :=
  validateAccepted .unacceptableAlgorithm self.acceptedAlgorithms params.algorithm

def validateKeyId (params : MessageSignatureParams) : Except MessageSignatureError Unit :=
  validateAccepted .unknownKeyId self.acceptedKeyIds params.keyId

def validateCreated (params : MessageSignatureParams) (now : UInt64) :
    Except MessageSignatureError Unit :=
  match params.created with
  | some created =>
    if saturatingAdd now self.clockSkew < created then
      .error (.signatureCreatedInFuture created now)
    else
      match self.maxAge with
      | some maxAge =>
        let latest := saturatingAdd (saturatingAdd created maxAge) self.clockSkew
        if latest < now then .error (.signatureTooOld created now maxAge) else .ok ()
      | none => .ok ()
  | none =>
    if self.maxAge.isSome then .error (.missingSignatureParameter (ascii "created")) else .ok ()

def validateTimestamps (params : MessageSignatureParams) : Except MessageSignatureError Unit :=
  if self.requireCreated && params.created.isNone then
    .error (.missingSignatureParameter (ascii "created"))
  else if self.maxAge.isSome && self.validationTime.isNone then .error .missingValidationTime
  else if self.validationTime.isNone && (params.created.isSome || params.expires.isSome) then
    .error .missingValidationTime
  else
    match self.validationTime with
    | none => .ok ()
    | some now => do
      self.validateCreated params now
      match params.expires with
      | some expires =>
        if saturatingAdd expires self.clockSkew < now then .error (.signatureExpired expires now)
        else .ok ()
      | none => .ok ()

def validatePolicy (signature : MessageSignature) : Except MessageSignatureError Unit := do
  validateRequiredComponents signature.components self.requiredComponents
  self.validateAlgorithm signature.params
  self.validateKeyId signature.params
  self.validateTimestamps signature.params

end MessageSignatureVerificationPolicy

def coversSha256ContentDigest (component : MessageSignatureComponent) : Bool :=
  if component.kind ≠ .header contentDigest then false
  else
    let hasKey := component.parameters.any fun
      | .key _ => true
      | _ => false
    !hasKey || component.dictionaryKey = some (ascii "sha-256")

/-- The four flags of `verify_covered_content_digests`. -/
structure CheckedDigests where
  requestHeaders : Bool := false
  requestTrailers : Bool := false
  responseHeaders : Bool := false
  responseTrailers : Bool := false

def alreadyChecked (isTrailer checkedHeaders checkedTrailers : Bool) : Bool :=
  if isTrailer then checkedTrailers else checkedHeaders

/-- `mark_checked`: both flags afterwards. -/
def markChecked (isTrailer checkedHeaders checkedTrailers : Bool) : Bool × Bool :=
  if isTrailer then (checkedHeaders, true) else (true, checkedTrailers)

def contentDigestFields (component : MessageSignatureComponent) (headers : HeaderMap)
    (trailers : Option HeaderMap) : Except MessageSignatureError HeaderMap :=
  componentFields component headers trailers

/-- The data of one side of an exchange that a digest speaks of. -/
structure DigestSide where
  headers : HeaderMap
  trailers : Option HeaderMap
  body : Option Bytes

def MessageSignatureRequestContext.digestSide (self : MessageSignatureRequestContext) :
    DigestSide :=
  ⟨self.headers, self.trailers, self.body⟩

def MessageSignatureResponseContext.digestSide (self : MessageSignatureResponseContext) :
    DigestSide :=
  ⟨self.headers, self.trailers, self.body⟩

variable [Base64]

/-- Compare the digest of one side with its body, unless this was done before for the same part
(headers or trailers); the result is the pair of flags. -/
def checkDigest (component : MessageSignatureComponent) (checkedHeaders checkedTrailers : Bool)
    (side : Option DigestSide) : Except MessageSignatureError (Bool × Bool) :=
  let isTrailer := component.hasTrailerParameter
  if alreadyChecked isTrailer checkedHeaders checkedTrailers then
    .ok (checkedHeaders, checkedTrailers)
  else
    match side with
    | none => .ok (checkedHeaders, checkedTrailers)
    | some side =>
      match side.body with
      | none => .ok (checkedHeaders, checkedTrailers)
      | some body => do
        let fields ← contentDigestFields component side.headers side.trailers
        verifySha256ContentDigest fields body
        pure (markChecked isTrailer checkedHeaders checkedTrailers)

def checkRequestDigest (request : Option MessageSignatureRequestContext)
    (checked : CheckedDigests) (component : MessageSignatureComponent) :
    Except MessageSignatureError CheckedDigests := do
  let flags ← checkDigest component checked.requestHeaders checked.requestTrailers
    (request.map (·.digestSide))
  pure { checked with requestHeaders := flags.1, requestTrailers := flags.2 }

def checkResponseDigest (response : Option MessageSignatureResponseContext)
    (checked : CheckedDigests) (component : MessageSignatureComponent) :
    Except MessageSignatureError CheckedDigests := do
  let flags ← checkDigest component checked.responseHeaders checked.responseTrailers
    (response.map (·.digestSide))
  pure { checked with responseHeaders := flags.1, responseTrailers := flags.2 }

def checkCoveredContentDigest (request : Option MessageSignatureRequestContext)
    (response : Option MessageSignatureResponseContext) (checked : CheckedDigests)
    (component : MessageSignatureComponent) : Except MessageSignatureError CheckedDigests :=
  if !coversSha256ContentDigest component then .ok checked
  else if component.hasRelatedRequestParameter then
    if response.isNone then .ok checked else checkRequestDigest request checked component
  else if response.isSome then checkResponseDigest response checked component
  else checkRequestDigest request checked component

def verifyCoveredContentDigests (signature : MessageSignature)
    (request : Option MessageSignatureRequestContext)
    (response : Option MessageSignatureResponseContext) : Except MessageSignatureError Unit := do
  let _ ← signature.components.foldlM (checkCoveredContentDigest request response) {}

namespace MessageSignatureVerificationPolicy

omit [Base64] in
def verifyBase (signature : MessageSignature) (signatureBase : Bytes)
    (verifier : MessageSignatureVerifier) : Except MessageSignatureError Unit := do
  if ← verifier ⟨signature.label, signature.params, signatureBase, signature.signature⟩ then pure ()
  else .error .verificationFailed

omit [Base64] in
def signatureWithStructuredFieldTypes (self : MessageSignatureVerificationPolicy)
    (signature : MessageSignature) : MessageSignature :=
  signature.withStructuredFieldTypes self.structuredFieldTypes

variable [FormUrlencoded] (self : MessageSignatureVerificationPolicy)

/-- The common course of the `verify_parsed_*` functions. -/
def verifyParsed (signature : MessageSignature) (request : Option MessageSignatureRequestContext)
    (response : Option MessageSignatureResponseContext) (context : MessageSignatureContext)
    (verifier : MessageSignatureVerifier) : Except MessageSignatureError Unit := do
  let signature := self.signatureWithStructuredFieldTypes signature
  self.validatePolicy signature
  verifyCoveredContentDigests signature request response
  let base ← signature.signatureBaseForContext context
  verifyBase signature base.value verifier

def verifyParsedRequest (signature : MessageSignature) (request : MessageSignatureRequestContext)
    (verifier : MessageSignatureVerifier) : Except MessageSignatureError Unit :=
  self.verifyParsed signature (some request) none
    (.request request.method request.targetUri request.requestTarget request.headers
      request.trailers) verifier

def verifyParsedResponse (signature : MessageSignature)
    (response : MessageSignatureResponseContext) (verifier : MessageSignatureVerifier) :
    Except MessageSignatureError Unit :=
  self.verifyParsed signature none (some response)
    (.response response.status response.headers response.trailers) verifier

def verifyParsedRequestResponse (signature : MessageSignature)
    (request : MessageSignatureRequestContext) (response : MessageSignatureResponseContext)
    (verifier : MessageSignatureVerifier) : Except MessageSignatureError Unit :=
  self.verifyParsed signature (some request) (some response)
    (.fromRequestResponseContexts request response) verifier

end MessageSignatureVerificationPolicy

end Aioduct.MessageSignatures
