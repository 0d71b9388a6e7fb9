import Aioduct.Http.Header
import Aioduct.Time
import Aioduct.Wire.Assoc
import Aioduct.Wire.Machine
import Aioduct.Wire.Utf8

/-!
# Strict transport security

`hsts.rs`: hosts that are to be reached over HTTPS, behind a lock, which a panic leaves poisoned.
The clock is read once for a call. The hosts stand in the order in which their map is walked.
-/

namespace Aioduct.Hsts

open Wire Http

def isPort (s : Bytes) : Bool := (parseUnsigned 16 s).isSome

/-- What stands between brackets, with nothing or a port after them. -/
def bracketedHost (rest : Bytes) : Option Bytes := do
  let (addr, suffix) ← splitOnce (ascii "]") rest
  match suffix with
  | [] => some addr
  | b :: port => if b == byte ':' && isPort port then some addr else none

variable (host : Bytes)

/-- The host before a port; a text with several colons is an address. -/
def hostBeforePort : Bytes :=
  match splitOnce (ascii ":") host with
  | some (name, port) =>
    if host.count (byte ':') == 1 && !name.isEmpty && isPort port then name else host
  | none => host

def withoutPort : Option Bytes :=
  match host with
  | [] => none
  | b :: rest => if b == byte '[' then bracketedHost rest else some (hostBeforePort host)

def canonicalHost : Option Bytes := do
  let host ← withoutPort (Utf8.trimText host)
  let host := lowercase (host.rdropWhile (· == byte '.'))
  if host.isEmpty then none else some host

def strictTransportSecurity : HeaderName := ⟨ascii "strict-transport-security", by decide⟩

/-- The lifetime in seconds and the flag, from the directives so far. -/
structure HstsDirectives where
  maxAge : Option Nat := none
  includeSubdomains : Bool := false

def readDirective (directives : HstsDirectives) (part : Bytes) : HstsDirectives :=
  let part := lowercase (Utf8.trimText part)
  match part.dropPrefix? (ascii "max-age=") with
  | some age =>
    match parseUnsigned 64 (trim (· == byte '"') (Utf8.trimText age)) with
    | some secs => { directives with maxAge := some secs }
    | none => directives
  | none =>
    if part = ascii "includesubdomains" then { directives with includeSubdomains := true }
    else directives

def parseHsts (value : HeaderValue) : Option (Nat × Bool) := do
  let directives := ((← value.toStr).splitOn (byte ';')).foldl readDirective {}
  let maxAge ← directives.maxAge
  pure (maxAge, directives.includeSubdomains)

structure HstsEntry where
  includeSubdomains : Bool
  expiresAt : Instant

abbrev Entries := List (Bytes × HstsEntry)

structure HstsStore where
  entries : Entries
  poisoned : Bool
  nodup : (Assoc.keys entries).Nodup
  canonical : ∀ key ∈ Assoc.keys entries, ∃ host, canonicalHost host = some key

namespace HstsStore

def new : HstsStore where
  entries := []
  poisoned := false
  nodup := List.nodup_nil
  canonical := by simp

variable (self : HstsStore)

def retain (p : Bytes × HstsEntry → Bool) : HstsStore where
  entries := self.entries.filter p
  poisoned := self.poisoned
  nodup := Assoc.nodup_keys_filter self.nodup p
  canonical := by
    intro key hkey
    exact self.canonical key ((List.filter_sublist.map _).subset hkey)

def remove (host : Bytes) : HstsStore := self.retain (·.1 ≠ host)

def insert {host key : Bytes} (hkey : canonicalHost host = some key) (entry : HstsEntry) :
    HstsStore where
  entries := Assoc.replaceOrAppend self.entries key entry
  poisoned := self.poisoned
  nodup := Assoc.nodup_keys_replaceOrAppend self.nodup key entry
  canonical := by
    intro other hother
    obtain ⟨item, hitem, rfl⟩ := List.mem_map.mp hother
    rcases Assoc.mem_replaceOrAppend hitem with hitem | rfl
    · exact self.canonical _ (List.mem_map_of_mem hitem)
    · exact ⟨host, hkey⟩

def capacity : Nat := 1024

variable (now : Instant)

def dropExpired : HstsStore :=
  if capacity ≤ self.entries.length then self.retain (now < ·.2.expiresAt) else self

def oldest : Option (Bytes × HstsEntry) :=
  if capacity ≤ self.entries.length then Assoc.minByKey (·.2.expiresAt) self.entries else none

def dropOldest : HstsStore :=
  match self.oldest with
  | some item => self.remove item.1
  | none => self

def learn {host key : Bytes} (hkey : canonicalHost host = some key) (maxAge : Nat)
    (includeSubdomains : Bool) : HstsStore :=
  if maxAge = 0 then self.remove key
  else
    let store := (self.dropExpired now).dropOldest
    match SystemTime.addSecs now maxAge with
    | some expiresAt => store.insert hkey ⟨includeSubdomains, expiresAt⟩
    | none => { store with poisoned := true }

def received (headers : HeaderMap) : Option (Nat × Bool) :=
  (headers.get strictTransportSecurity).bind parseHsts

def storeFromResponse (host : Bytes) (headers : HeaderMap) : HstsStore :=
  match hkey : canonicalHost host with
  | none => self
  | some _ =>
    match received headers with
    | none => self
    | some (maxAge, includeSubdomains) =>
      if self.poisoned then self else self.learn now hkey maxAge includeSubdomains

def parents : Bytes → List Bytes
  | [] => []
  | b :: host => if b == byte '.' then host :: parents host else parents host

def shouldUpgrade (host : Bytes) : Bool :=
  match canonicalHost host with
  | none => false
  | some host =>
    !self.poisoned &&
      ((Assoc.get self.entries host).any (now < ·.expiresAt) ||
        (parents host).any fun domain =>
          (Assoc.get self.entries domain).any fun entry =>
            entry.includeSubdomains && now < entry.expiresAt)

def clear : HstsStore :=
  if self.poisoned then self else new

end HstsStore

end Aioduct.Hsts
