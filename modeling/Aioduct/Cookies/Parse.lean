import Aioduct.Cookies.Date
import Aioduct.Cookies.Matching
import Aioduct.Wire.Utf8
import Aioduct.Wire.Action

/-!
# Parsing a `Set-Cookie` line

`cookie/parse.rs`. A line is refused or accepted as a cookie; reading a time can also overflow, and
then the program stops.
-/

namespace Aioduct.Cookies

open Wire

inductive SameSite where
  | strict
  | lax
  | none
  deriving DecidableEq

structure Cookie where
  name : Bytes
  value : Bytes
  domain : Option Bytes
  path : Bytes
  secure : Bool
  httpOnly : Bool
  sameSite : Option SameSite
  expired : Bool
  expiresAt : Option SystemTime
  hostOnly : Bool
  deriving DecidableEq

inductive Failure where
  /-- `parse_set_cookie` returns `None`. -/
  | refused
  /-- An addition or a subtraction panics. -/
  | overflow
  deriving DecidableEq

inductive Attribute where
  | secure
  | httpOnly
  | domain (value : Bytes)
  | path (value : Bytes)
  | sameSite (value : Option SameSite)
  | maxAge (seconds : Option Int)
  | expires (date : Bytes)
  | other

def parseSameSite (s : Bytes) : Option SameSite :=
  if s = ascii "strict" then some .strict
  else if s = ascii "lax" then some .lax
  else if s = ascii "none" then some .none
  else none

def readAttribute (attr : Bytes) : Attribute :=
  let attr := Utf8.trimText attr
  let lower := lowercase attr
  if lower = ascii "secure" then .secure
  else if lower = ascii "httponly" then .httpOnly
  else
    match lower.dropPrefix? (ascii "domain=") with
    | some value => .domain (value.dropWhile (· == byte '.'))
    | none =>
      if (ascii "path=").isPrefixOf lower then .path (attr.drop 5)
      else
        match lower.dropPrefix? (ascii "samesite=") with
        | some value => .sameSite (parseSameSite (Utf8.trimText value))
        | none =>
          match lower.dropPrefix? (ascii "max-age=") with
          | some value => .maxAge (parseI64 (Utf8.trimText value))
          | none =>
            if (ascii "expires=").isPrefixOf lower then .expires (Utf8.trimText (attr.drop 8))
            else .other

/-- The variables of the attribute loop. -/
structure Attributes where
  domain : Option Bytes := none
  path : Option Bytes := none
  secure : Bool := false
  httpOnly : Bool := false
  sameSite : Option SameSite := none
  expired : Bool := false
  expiresAt : Option SystemTime := none

variable (now : SystemTime)

def applyMaxAge (state : Attributes) (seconds : Int) : Except Failure Attributes :=
  if seconds ≤ 0 then .ok { state with expired := true, expiresAt := none }
  else
    match now.addSecs seconds.toNat with
    | none => .error .overflow
    | some time => .ok { state with expiresAt := some time }

def applyExpires (state : Attributes) (date : Bytes) : Except Failure Attributes :=
  if state.expiresAt.isNone && !state.expired then
    match parseHttpDate date with
    | none => .error .overflow
    | some none => .ok state
    | some (some time) =>
      if time < now then .ok { state with expired := true }
      else .ok { state with expiresAt := some time }
  else .ok state

def applyAttribute (requestDomain : Bytes) (state : Attributes) (attr : Bytes) :
    Except Failure Attributes :=
  match readAttribute attr with
  | .secure => .ok { state with secure := true }
  | .httpOnly => .ok { state with httpOnly := true }
  | .domain value =>
    if domainMatches requestDomain value then .ok { state with domain := some value }
    else .error .refused
  | .path value => .ok { state with path := some value }
  | .sameSite value => .ok { state with sameSite := value }
  | .maxAge none => .ok state
  | .maxAge (some seconds) => applyMaxAge now state seconds
  | .expires date => applyExpires now state date
  | .other => .ok state

def securePrefix : Bytes := ascii "__Secure-"

def hostPrefix : Bytes := ascii "__Host-"

variable (requestDomain : Bytes)

def prefixRulesHold (cookie : Cookie) : Bool :=
  if hostPrefix.isPrefixOf cookie.name then
    cookie.secure && cookie.hostOnly && cookie.domain == some requestDomain &&
      cookie.path == ascii "/"
  else if securePrefix.isPrefixOf cookie.name then cookie.secure
  else true

def assemble (requestPath name value : Bytes) (state : Attributes) : Cookie where
  name := name
  value := value
  domain := some (state.domain.getD requestDomain)
  path := state.path.getD (defaultCookiePath requestPath)
  secure := state.secure
  httpOnly := state.httpOnly
  sameSite := state.sameSite
  expired := state.expired
  expiresAt := state.expiresAt
  hostOnly := state.domain.isNone

def finishCookie (cookie : Cookie) : Except Failure Cookie :=
  if prefixRulesHold requestDomain cookie then .ok cookie else .error .refused

def nameValue (part : Bytes) : Except Failure (Bytes × Bytes) :=
  match splitOnce (ascii "=") (Utf8.trimText part) with
  | none => .error .refused
  | some (name, value) =>
    if (Utf8.trimText name).isEmpty then .error .refused
    else .ok (Utf8.trimText name, Utf8.trimText value)

def parseSetCookie (header requestDomain requestPath : Bytes) : Except Failure Cookie := do
  let parts := header.splitOn (byte ';')
  let (name, value) ← nameValue (parts.headD [])
  let state ← parts.tail.foldlM (applyAttribute now requestDomain) {}
  finishCookie requestDomain (assemble requestDomain requestPath name value state)

end Aioduct.Cookies
