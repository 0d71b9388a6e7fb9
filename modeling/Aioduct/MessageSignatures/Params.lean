import Aioduct.MessageSignatures.Error
import Aioduct.StructuredFields.Ast
import Aioduct.Wire.Decimal

/-!
# Signature parameters

`message_signatures/params.rs`: the metadata of a signature and its serialization.
-/

namespace Aioduct.MessageSignatures

open Wire StructuredFields

def maxStructuredFieldsInteger : UInt64 := 999999999999999

structure MessageSignatureParams where
  created : Option UInt64 := none
  expires : Option UInt64 := none
  nonce : Option Bytes := none
  algorithm : Option Bytes := none
  keyId : Option Bytes := none
  tag : Option Bytes := none

def serializeSfInteger (parameter : Bytes) (value : UInt64) : Except MessageSignatureError Bytes :=
  if maxStructuredFieldsInteger < value then .error (.invalidIntegerParameter parameter value)
  else .ok (numeral value.toNat)

def serializeSfString (value : Bytes) : Except MessageSignatureError Bytes :=
  if value.all isVisible then .ok (serializeString value)
  else .error (.invalidStringParameter value)

def serializeParam {α : Type} (name : Bytes) (serialize : α → Except MessageSignatureError Bytes) :
    Option α → Except MessageSignatureError Bytes
  | none => .ok []
  | some value => do
    let text ← serialize value
    pure ([byte ';'] ++ name ++ [byte '='] ++ text)

def MessageSignatureParams.serialize (self : MessageSignatureParams) :
    Except MessageSignatureError Bytes := do
  let created ← serializeParam (ascii "created") (serializeSfInteger (ascii "created")) self.created
  let expires ← serializeParam (ascii "expires") (serializeSfInteger (ascii "expires")) self.expires
  let nonce ← serializeParam (ascii "nonce") serializeSfString self.nonce
  let algorithm ← serializeParam (ascii "alg") serializeSfString self.algorithm
  let keyId ← serializeParam (ascii "keyid") serializeSfString self.keyId
  let tag ← serializeParam (ascii "tag") serializeSfString self.tag
  pure (created ++ expires ++ nonce ++ algorithm ++ keyId ++ tag)

end Aioduct.MessageSignatures
