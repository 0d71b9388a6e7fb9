import Aioduct.StructuredFields.Fixpoint
import Aioduct.MessageSignatures.Error
import Aioduct.Wire.Action

/-!
# Signature headers

`message_signatures/headers.rs`: the `Signature-Input` and `Signature` dictionaries are read from
all lines of their fields, and written back with one label bound again.
-/

namespace Aioduct.MessageSignatures

open Wire Http StructuredFields

variable {value : HeaderValue} {s : Bytes}

structure MessageSignatureHeaders where
  label : Bytes
  signatureInput : HeaderValue
  signature : HeaderValue

abbrev HeaderAction := Action HeaderMap MessageSignatureError

def requireStr (e : MessageSignatureError) (value : HeaderValue) :
    Except MessageSignatureError Bytes :=
  match value.toStr with
  | some s => .ok s
  | none => .error e

lemma requireStr_eq_ok {e : MessageSignatureError}
    (h : requireStr e value = .ok s) : value.toStr = some s := by
  unfold requireStr at h
  split at h
  next text ht =>
    rw [ht, Except.ok.inj h]
  · simp at h

lemma requireStr_of_toStr (h : value.toStr = some s)
    (e : MessageSignatureError) : requireStr e value = .ok s := by
  unfold requireStr
  rw [h]

/-- The trimmed lines of a field joined by a comma, or nothing for an absent field. -/
def combinedFieldValue (e : MessageSignatureError) (headers : HeaderMap) (name : HeaderName) :
    Except MessageSignatureError (Option Bytes) := do
  let out ← (headers.getAll name).mapM fun value => do
    let value ← requireStr e value
    pure (trim isOws value)
  if out.isEmpty then pure none else pure (some ((ascii ", ").intercalate out))

def combinedHeaderValue (headers : HeaderMap) (name : HeaderName) :
    Except MessageSignatureError (Option Bytes) :=
  combinedFieldValue (.malformedSignatureHeader name) headers name

def rejectDuplicateLabels (header : HeaderName) (seen : List Bytes) :
    List (Bytes × Bytes) → Except MessageSignatureError Unit
  | [] => .ok ()
  | (label, _) :: entries =>
    if label ∈ seen then .error (.duplicateSignatureLabel header label)
    else rejectDuplicateLabels header (label :: seen) entries

def ensureMatchingLabels (signatureInput signature : List (Bytes × Bytes)) :
    Except MessageSignatureError Unit :=
  if signatureInput.isEmpty && signature.isEmpty then .ok ()
  else if signatureInput.length ≠ signature.length then .error .mismatchedSignatureLabels
  else if signatureInput.all (fun entry => entry.1 ∈ Assoc.keys signature) then .ok ()
  else .error .mismatchedSignatureLabels

def mergeMember (entries : List (Bytes × Bytes)) (label member : Bytes) : List (Bytes × Bytes) :=
  Assoc.replaceOrAppend entries label member

def removeMember (entries : List (Bytes × Bytes)) (label : Bytes) : List (Bytes × Bytes) :=
  entries.filter (·.1 ≠ label)

variable (name : HeaderName)

def headerDisplayName : Bytes :=
  if name = signatureInputName then ascii "Signature-Input"
  else if name = signatureName then ascii "Signature"
  else if name = acceptSignatureName then ascii "Accept-Signature"
  else name.bytes

def insertDictionary (entries : List (Bytes × Bytes)) : HeaderAction Unit :=
  match HeaderValue.fromStr (serializeDictionary entries) with
  | some value => .modify (·.insert name value)
  | none => .throw (.invalidGeneratedHeader (headerDisplayName name))

def setDictionary (entries : List (Bytes × Bytes)) : HeaderAction Unit :=
  if entries.isEmpty then .modify (·.remove name) else insertDictionary name entries

variable [Base64]

def existingDictionary (headers : HeaderMap) (name : HeaderName) :
    Except MessageSignatureError (List (Bytes × Bytes)) := do
  match ← combinedHeaderValue headers name with
  | none => pure []
  | some value =>
    match dictionary value with
    | .ok entries => pure entries
    | .error _ => .error (.malformedSignatureHeader name)

def singleGeneratedMember (header : HeaderName) (value label : Bytes) :
    Except MessageSignatureError Bytes :=
  match dictionary value with
  | .ok [(entryLabel, member)] =>
    if entryLabel = label then .ok member else .error (.malformedSignatureHeader header)
  | _ => .error (.malformedSignatureHeader header)

/-- Both dictionaries without `label`, checked to be duplicate-free with matching labels. -/
def otherMembers (headers : HeaderMap) (label : Bytes) :
    Except MessageSignatureError (List (Bytes × Bytes) × List (Bytes × Bytes)) := do
  let signatureInput ← existingDictionary headers signatureInputName
  let signature ← existingDictionary headers signatureName
  let signatureInput := removeMember signatureInput label
  let signature := removeMember signature label
  rejectDuplicateLabels signatureInputName [] signatureInput
  rejectDuplicateLabels signatureName [] signature
  ensureMatchingLabels signatureInput signature
  pure (signatureInput, signature)

def MessageSignatureHeaders.insertInto (self : MessageSignatureHeaders) : HeaderAction Unit := do
  let inputText ← .lift
    (requireStr (.malformedSignatureHeader signatureInputName) self.signatureInput)
  let generatedInput ← .lift (singleGeneratedMember signatureInputName inputText self.label)
  let signatureText ← .lift
    (requireStr (.malformedSignatureHeader signatureName) self.signature)
  let generatedSignature ← .lift
    (singleGeneratedMember signatureName signatureText self.label)
  let headers ← .get
  let others ← .lift (otherMembers headers self.label)
  insertDictionary signatureInputName (mergeMember others.1 self.label generatedInput)
  insertDictionary signatureName (mergeMember others.2 self.label generatedSignature)

def removeLabel (label : Bytes) : HeaderAction Unit := do
  let headers ← .get
  let others ← .lift (otherMembers headers label)
  setDictionary signatureInputName others.1
  setDictionary signatureName others.2

end Aioduct.MessageSignatures
