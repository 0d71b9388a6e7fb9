import Aioduct.Http.Uri
import Aioduct.Time
import Aioduct.Wire.Machine
import Aioduct.Wire.Utf8

/-!
# Header fields that the cache reads

`cache/headers.rs`: `Cache-Control` and `Expires`. Durations are nanoseconds; `none` is an overflow
and `some none` a text that is no date.
-/

namespace Aioduct.Cache

open Wire Http

abbrev Duration := Nat

def fromSecs (secs : Nat) : Duration := secs * 10 ^ 9

structure CacheDirectives where
  maxAge : Option Duration := none
  sMaxageSet : Bool := false
  noStore : Bool := false
  noCache : Bool := false
  isPrivate : Bool := false
  mustRevalidate : Bool := false
  immutable : Bool := false
  staleWhileRevalidate : Option Duration := none
  staleIfError : Option Duration := none

def secondsOf (name : Bytes) (part : Bytes) : Option Duration :=
  match part.dropPrefix? name with
  | none => none
  | some seconds => (parseUnsigned 64 (Utf8.trimText seconds)).map fromSecs

def applyDirective (directives : CacheDirectives) (part : Bytes) : CacheDirectives :=
  let part := lowercase (Utf8.trimText part)
  if part = ascii "no-store" then { directives with noStore := true }
  else if part = ascii "no-cache" then { directives with noCache := true, mustRevalidate := true }
  else if part = ascii "private" then { directives with isPrivate := true }
  else if part = ascii "must-revalidate" then { directives with mustRevalidate := true }
  else
    match secondsOf (ascii "max-age=") part with
    | some age =>
      if directives.sMaxageSet then directives else { directives with maxAge := some age }
    | none =>
      match secondsOf (ascii "s-maxage=") part with
      | some age => { directives with maxAge := some age, sMaxageSet := true }
      | none =>
        if part = ascii "immutable" then { directives with immutable := true }
        else
          match secondsOf (ascii "stale-while-revalidate=") part with
          | some age => { directives with staleWhileRevalidate := some age }
          | none =>
            match secondsOf (ascii "stale-if-error=") part with
            | some age => { directives with staleIfError := some age }
            | none => directives

/-- Only the first `Cache-Control` line is read. -/
def parseCacheControl (headers : HeaderMap) : CacheDirectives :=
  match (headers.get .cacheControl).bind HeaderValue.toStr with
  | none => {}
  | some value => (value.splitOn (byte ',')).foldl applyDirective {}

def lowerMonths : List Bytes :=
  [ascii "jan", ascii "feb", ascii "mar", ascii "apr", ascii "may", ascii "jun", ascii "jul",
    ascii "aug", ascii "sep", ascii "oct", ascii "nov", ascii "dec"]

def asU64 (n : Int) : Nat := (n % 2 ^ 64).toNat

def asI64 (n : Nat) : Int := if n < 2 ^ 63 then n else (n : Int) - 2 ^ 64

def daysFromCivil (year : Int) (month day : Nat) : Option Int := do
  let y := if month ≤ 2 then year - 1 else year
  let era := (if 0 ≤ y then y else y - 399).tdiv 400
  let yoe := asU64 (y - era * 400)
  let shifted : Int := if 2 < month then (month : Int) - 3 else (month : Int) + 9
  let doy := asU64 ((153 * shifted + 2).tdiv 5 + day - 1)
  let doe ← U64.add (yoe * 365 + yoe / 4 - yoe / 100) doy
  pure (era * 146097 + asI64 doe - 719468)

def secondsSinceEpoch (days : Int) (hour minute second : Nat) : Option Nat := do
  let secs ← U64.mul (asU64 days) 86400
  let secs ← U64.add secs (hour * 3600)
  let secs ← U64.add secs (minute * 60)
  U64.add secs second

structure HttpDate where
  year : Int
  month : Nat
  day : Nat
  hour : Nat
  minute : Nat
  second : Nat

def parseClock (s : Bytes) : Option (Nat × Nat × Nat) :=
  match s.splitOn (byte ':') with
  | [hour, minute, second] => do
    pure (← parseUnsigned 32 hour, ← parseUnsigned 32 minute, ← parseUnsigned 32 second)
  | _ => none

def httpDateFields (s : Bytes) : Option HttpDate :=
  match splitWhitespace (Utf8.trimText s) with
  | _ :: day :: month :: year :: time :: _ :: _ => do
    let day ← parseUnsigned 32 day
    let month ← (lowerMonths.findIdx? (· == lowercase month)).map (· + 1)
    let year ← parseSigned 31 year
    let (hour, minute, second) ← parseClock time
    pure ⟨year, month, day, hour, minute, second⟩
  | _ => none

def convertHttpDate (date : HttpDate) : Option SystemTime := do
  let days ← daysFromCivil date.year date.month date.day
  let secs ← secondsSinceEpoch days date.hour date.minute date.second
  SystemTime.unixEpoch.addSecs secs

def httpdateParse (s : Bytes) : Option (Option SystemTime) :=
  match httpDateFields s with
  | none => some none
  | some date => (convertHttpDate date).map some

def parseExpires (headers : HeaderMap) : Option (Option SystemTime) :=
  match (headers.get .expires).bind HeaderValue.toStr with
  | none => some none
  | some value => httpdateParse value

example : httpdateParse (ascii "Sun, 06 Nov 1994 08:49:37 GMT") =
    some (some (784111777 * 10 ^ 9)) := by decide

end Aioduct.Cache
