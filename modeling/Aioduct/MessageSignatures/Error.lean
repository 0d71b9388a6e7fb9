import Aioduct.Http.Header

/-!
# Errors of message signatures
-/

namespace Aioduct.MessageSignatures

open Wire Http

/-- The variants of `MessageSignatureError` that the modelled functions raise. Field names and
texts that the source keeps as static strings are byte strings here. -/
inductive MessageSignatureError where
  | invalidLabel (label : Bytes)
  | emptyComponents
  | duplicateComponent (identifier : Bytes)
  | missingScheme
  | missingAuthority
  | missingHeader (name : HeaderName)
  | missingQueryParam (name : Bytes)
  | duplicateQueryParam (name : Bytes)
  | missingDictionaryKey (field : HeaderName) (key : Bytes)
  | malformedStructuredField (name : HeaderName)
  | unknownStructuredFieldType (name : HeaderName)
  | malformedSignatureHeader (header : HeaderName)
  | duplicateSignatureLabel (header : HeaderName) (label : Bytes)
  | mismatchedSignatureLabels
  | missingSignatureLabel (label : Bytes)
  | unsupportedComponent (identifier : Bytes)
  | missingRequiredComponent (identifier : Bytes)
  | missingSignatureParameter (parameter : Bytes)
  | malformedContentDigest
  | unsupportedContentDigestAlgorithm
  | contentDigestMismatch
  | missingValidationTime
  | unacceptableAlgorithm (algorithm : Option Bytes)
  | unknownKeyId (keyId : Option Bytes)
  | signatureExpired (expires now : UInt64)
  | signatureCreatedInFuture (created now : UInt64)
  | signatureTooOld (created now maxAge : UInt64)
  | componentNotAvailable (component context : Bytes)
  | unsupportedComponentParameters (identifier : Bytes)
  | unsupportedHeaderValue (name : HeaderName)
  | newlineInComponentValue
  | controlCharacterInComponentValue
  | invalidDerivedComponentWhitespace
  | invalidStringParameter (value : Bytes)
  | invalidIntegerParameter (parameter : Bytes) (value : UInt64)
  | nonAsciiSignatureBase
  | invalidGeneratedHeader (header : Bytes)
  | signer (message : Bytes)
  | verificationFailed
  | verifier (message : Bytes)

def signatureInputName : HeaderName := ⟨ascii "signature-input", by decide⟩

def signatureName : HeaderName := ⟨ascii "signature", by decide⟩

def acceptSignatureName : HeaderName := ⟨ascii "accept-signature", by decide⟩

lemma signatureInputName_ne : signatureInputName ≠ signatureName := by decide

end Aioduct.MessageSignatures
