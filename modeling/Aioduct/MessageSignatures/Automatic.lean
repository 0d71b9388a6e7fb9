import Aioduct.Error
import Aioduct.Http.Uri
import Aioduct.MessageSignatures.Merge

/-!
# Signed requests

`message_signatures/automatic.rs`: a signature is written to two fields of the request.
-/

namespace Aioduct.MessageSignatures

open Wire Http MultiMap Except

/-- What is signed gets the two lines of the signature. -/
structure MessageSigner where
  coversHost : Bool := false
  lines : Method → Uri → Uri → HeaderMap → Except Error (HeaderValue × HeaderValue)

namespace MessageSigner

variable (self : MessageSigner) (method : Method) (target requestTarget : Uri)

def sign (headers : HeaderMap) : Except Error HeaderMap := do
  let (input, signature) ← self.lines method target requestTarget headers
  pure ((headers.insert signatureInputName input).insert signatureName signature)

def signMarked (headers : MarkedHeaderMap) : Except Error MarkedHeaderMap := do
  let (input, signature) ← self.lines method target requestTarget headers.plain
  pure ((headers.insert signatureInputName ⟨input, false⟩).insert signatureName ⟨signature, false⟩)

variable {self method target requestTarget} {headers signed : HeaderMap}

lemma sign_agreeOff (h : self.sign method target requestTarget headers = .ok signed) :
    AgreeOff [signatureName, signatureInputName] headers signed := by
  obtain ⟨lines, -, h⟩ := bind_eq_ok.mp h
  cases h
  exact (agreeOff_insert (by simp) headers _).trans (agreeOff_insert (by simp) _ _)

variable [Base64] (onError : MessageSignatureError → Error)
  (generate : Method → Uri → Uri → HeaderMap → Except Error MessageSignatureHeaders)

/-- The generated headers are merged into those of the request. -/
def ofHeaders : MessageSigner where
  lines method target requestTarget headers := do
    let generated ← generate method target requestTarget headers
    let (result, signed) := generated.insertInto headers
    match result, signed.get signatureInputName, signed.get signatureName with
    | .ok (), some input, some signature => pure (input, signature)
    | .ok (), _, _ => throw (onError .mismatchedSignatureLabels)
    | .error e, _, _ => throw (onError e)

lemma sign_ofHeaders {generated : MessageSignatureHeaders}
    (hg : generate method target requestTarget headers = .ok generated)
    (h : generated.insertInto headers = (.ok (), signed)) :
    (ofHeaders onError generate).sign method target requestTarget headers = .ok signed := by
  rcases insertInto_cases generated headers with ⟨e, he⟩ | ⟨ownInput, ownSignature, others, ha⟩
  · rw [he] at h
    cases h
  obtain ⟨input, signature, -, -, -, -, hi⟩ := ha.insertInto
  obtain rfl := (Prod.mk.inj (h.symm.trans hi)).2
  have hl : (ofHeaders onError generate).lines method target requestTarget headers =
      .ok (input, signature) := by
    refine bind_eq_ok.mpr ⟨generated, hg, ?_⟩
    simp only [h, MultiMap.get, getAll_insert_self,
      getAll_insert_of_ne signatureInputName_ne]
    rfl
  rw [sign, hl]
  rfl

end MessageSigner

end Aioduct.MessageSignatures
