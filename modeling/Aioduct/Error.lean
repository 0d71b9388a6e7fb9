import Aioduct.Wire.Bytes

/-!
# Errors

The variants of `Error` that the modelled functions raise, with their texts.
-/

namespace Aioduct

open Wire

inductive Error where
  | invalidHeader (message : Bytes)
  | invalidUrl (message : Bytes)
  | unsupported (message : Bytes)
  | redirect (message : Bytes)
  | httpsOnly (scheme : Bytes)
  | tooManyRedirects (max : Nat)
  | other (message : Bytes)
  deriving DecidableEq

end Aioduct
