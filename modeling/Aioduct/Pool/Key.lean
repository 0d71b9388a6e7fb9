import Aioduct.Error
import Aioduct.Http.Uri
import Aioduct.Wire.Ip
import Aioduct.Wire.Split

/-!
# Pool keys

What decides whether a request may use a connection that another one opened.
-/

namespace Aioduct.Pool

open Wire Http
open Wire.Ip (IpAddr)

inductive ProtocolHint where
  | auto
  | http1
  | http2
  | http3
  | h2c
  | adaptiveH2c
  deriving DecidableEq

/-- A host as it is compared: the text of an address determines the address, and no other host has
that text. -/
inductive PoolHost where
  | address (ip : IpAddr)
  | name (text : Bytes)
  deriving DecidableEq

def withoutBrackets (host : Bytes) : Bytes :=
  match host with
  | b :: rest => if b == byte '[' && rest.getLast? == some (byte ']') then rest.dropLast else host
  | [] => host

def PoolHost.new (host : Bytes) : PoolHost :=
  let host := withoutBrackets host
  match Ip.parse host with
  | some ip => .address ip
  | none => .name (lowercase host)

inductive ProxyScheme where
  | http
  | https
  | socks4
  | socks4a
  | socks5
  | socks5h
  deriving DecidableEq

structure ProxyAuth where
  username : Bytes
  password : Bytes
  deriving DecidableEq

structure ProxyConfig where
  uri : Uri
  scheme : ProxyScheme
  auth : Option ProxyAuth := none
  connectHeaders : List (HeaderName × HeaderValue) := []

inductive ProxyRoutePort where
  | effective (port : UInt16)
  | invalid (endpoint : Bytes)
  deriving DecidableEq

structure ProxyRouteEndpoint where
  host : PoolHost
  port : ProxyRoutePort
  deriving DecidableEq

structure ProxyRouteHop where
  scheme : ProxyScheme
  endpoint : Option ProxyRouteEndpoint
  auth : Option ProxyAuth
  connectHeaders : List (HeaderName × Bytes)
  deriving DecidableEq

def endpointWithoutUserinfo (authority : Authority) : Bytes :=
  match rsplitOnce (byte '@') authority.text with
  | some (_, endpoint) => endpoint
  | none => authority.text

def invalidProxyPort (endpoint : Bytes) : Error :=
  .invalidUrl (ascii "invalid proxy endpoint port in authority `" ++ endpoint ++ ascii "`")

def rawPort (endpoint : Bytes) : Except Error (Option Bytes) :=
  match endpoint.dropPrefix? (ascii "[") with
  | some bracketed =>
    match splitOnce (ascii "]") bracketed with
    | some ([], _) => .error (invalidProxyPort endpoint)
    | some (_, []) => .ok none
    | some (_, b :: port) =>
      if b == byte ':' then .ok (some port) else .error (invalidProxyPort endpoint)
    | none => .error (invalidProxyPort endpoint)
  | none =>
    if endpoint.isEmpty || endpoint.contains (byte '[') || endpoint.contains (byte ']') then
      .error (invalidProxyPort endpoint)
    else
      match rsplitOnce (byte ':') endpoint with
      | some (host, port) =>
        if !host.isEmpty && !host.contains (byte ':') then .ok (some port)
        else .error (invalidProxyPort endpoint)
      | none => .ok none

def explicitProxyPort (authority : Authority) : Except Error (Option UInt16) := do
  let endpoint := endpointWithoutUserinfo authority
  match ← rawPort endpoint with
  | none => .ok none
  | some raw =>
    if raw.isEmpty || !raw.all isDigit then .error (invalidProxyPort endpoint)
    else
      match parseUnsigned 16 raw with
      | some port =>
        if authority.port == some (UInt16.ofNat port) then .ok (some (UInt16.ofNat port))
        else .error (invalidProxyPort endpoint)
      | none => .error (invalidProxyPort endpoint)

namespace ProxyConfig

variable (self : ProxyConfig)

def defaultPort : UInt16 :=
  match self.scheme with
  | .http => 80
  | .https => 443
  | .socks4 | .socks4a => 1080
  | .socks5 => 1080
  | .socks5h => 1080

def effectivePort : Except Error UInt16 :=
  match self.uri.authority with
  | some authority => do
    let port ← explicitProxyPort authority
    .ok (port.getD self.defaultPort)
  | none => .error (.invalidUrl (ascii "proxy URI missing authority"))

def sendsConnect : Bool := self.scheme = .http || self.scheme = .https

def routeEndpoint : Option ProxyRouteEndpoint :=
  self.uri.authority.map fun authority =>
    { host := .new authority.host
      port := match self.effectivePort with
        | .ok port => .effective port
        | .error _ => .invalid (endpointWithoutUserinfo authority) }

def hop : ProxyRouteHop where
  scheme := self.scheme
  endpoint := self.routeEndpoint
  auth := self.auth
  connectHeaders :=
    if self.sendsConnect then self.connectHeaders.map fun header => (header.1, header.2.bytes)
    else []

end ProxyConfig

abbrev ProxyRouteIdentity := List ProxyRouteHop

def ProxyRouteIdentity.fromConfigs (configs : List ProxyConfig) : ProxyRouteIdentity :=
  configs.map ProxyConfig.hop

inductive ProxyRoute where
  | direct
  | proxied (identity : ProxyRouteIdentity)
  deriving DecidableEq

structure PoolOrigin where
  scheme : Bytes
  host : PoolHost
  port : Option UInt16
  deriving DecidableEq

/-- The schemes are compared without case. -/
def PoolOrigin.new (scheme : Bytes) (authority : Authority) : PoolOrigin where
  scheme := lowercase scheme
  host := .new authority.host
  port :=
    match authority.port with
    | some port => some port
    | none =>
      if authority.text ≠ authority.host then none
      else if lowercase scheme = ascii "http" then some 80
      else if lowercase scheme = ascii "https" then some 443
      else none

structure SocketAddr where
  ip : IpAddr
  port : UInt16
  deriving DecidableEq

structure PoolKey where
  origin : PoolOrigin
  protocol : ProtocolHint := .auto
  proxyRoute : ProxyRoute := .direct
  forcedAddr : Option SocketAddr := none
  h3Endpoint : Option (Bytes × UInt16) := none
  deriving DecidableEq

def PoolKey.withHintAndRoute (scheme : Bytes) (authority : Authority) (protocol : ProtocolHint)
    (proxyRoute : ProxyRoute) : PoolKey where
  origin := .new scheme authority
  protocol := protocol
  proxyRoute := proxyRoute

structure Target where
  scheme : Bytes
  authority : Authority
  protocol : ProtocolHint
  proxies : Option (List ProxyConfig)
  forcedAddr : Option SocketAddr
  h3Endpoint : Option (Bytes × UInt16)

variable (target : Target)

def Target.route : ProxyRoute :=
  match target.proxies with
  | some configs => .proxied (.fromConfigs configs)
  | none => .direct

def Target.key : PoolKey :=
  { PoolKey.withHintAndRoute target.scheme target.authority target.protocol target.route with
    forcedAddr := target.forcedAddr
    h3Endpoint := target.h3Endpoint }

/-- The same address, or the same name up to case. -/
def SameHost (a b : Bytes) : Prop :=
  Ip.parse (withoutBrackets a) = Ip.parse (withoutBrackets b) ∧
    (Ip.parse (withoutBrackets a) = none →
      eqIgnoreCase (withoutBrackets a) (withoutBrackets b) = true)

lemma PoolHost.new_eq_iff (a b : Bytes) : PoolHost.new a = PoolHost.new b ↔ SameHost a b := by
  simp only [PoolHost.new, SameHost]
  cases Ip.parse (withoutBrackets a) <;> cases Ip.parse (withoutBrackets b) <;>
    simp [eqIgnoreCase]

/-- The same proxy, reached and addressed in the same way. -/
structure ProxyConfig.Same (p q : ProxyConfig) : Prop where
  scheme : p.scheme = q.scheme
  endpoint : p.routeEndpoint = q.routeEndpoint
  auth : p.auth = q.auth
  connectHeaders : p.sendsConnect = true →
    p.connectHeaders.map (fun header => (header.1, header.2.bytes)) =
      q.connectHeaders.map fun header => (header.1, header.2.bytes)

def SameProxies : Option (List ProxyConfig) → Option (List ProxyConfig) → Prop
  | none, none => True
  | some configs, some configs' => List.Forall₂ ProxyConfig.Same configs configs'
  | _, _ => False

structure Target.Same (target target' : Target) : Prop where
  scheme : eqIgnoreCase target.scheme target'.scheme = true
  host : SameHost target.authority.host target'.authority.host
  port : (PoolOrigin.new target.scheme target.authority).port =
    (PoolOrigin.new target'.scheme target'.authority).port
  protocol : target.protocol = target'.protocol
  proxies : SameProxies target.proxies target'.proxies
  forcedAddr : target.forcedAddr = target'.forcedAddr
  h3Endpoint : target.h3Endpoint = target'.h3Endpoint

lemma ProxyConfig.hop_eq_iff (p q : ProxyConfig) : p.hop = q.hop ↔ p.Same q := by
  unfold ProxyConfig.hop
  rw [ProxyRouteHop.mk.injEq]
  constructor
  · rintro ⟨hs, he, ha, hh⟩
    refine ⟨hs, he, ha, fun hsen => ?_⟩
    have hs' : q.sendsConnect := by
      unfold ProxyConfig.sendsConnect at hsen ⊢
      rwa [← hs]
    rwa [if_pos hsen, if_pos hs'] at hh
  rintro ⟨hs, he, ha, hh⟩
  have hsen : p.sendsConnect = q.sendsConnect := by
    unfold ProxyConfig.sendsConnect
    rw [hs]
  refine ⟨hs, he, ha, ?_⟩
  rw [← hsen]
  split
  next hsen =>
    exact hh hsen
  · rfl

lemma fromConfigs_eq_iff (configs configs' : List ProxyConfig) :
    ProxyRouteIdentity.fromConfigs configs = ProxyRouteIdentity.fromConfigs configs' ↔
      List.Forall₂ ProxyConfig.Same configs configs' := by
  unfold ProxyRouteIdentity.fromConfigs
  rw [← List.forall₂_eq_eq_eq, List.forall₂_map_left_iff, List.forall₂_map_right_iff]
  simp [ProxyConfig.hop_eq_iff]

lemma route_eq_iff (target' : Target) :
    target.route = target'.route ↔ SameProxies target.proxies target'.proxies := by
  unfold Target.route
  cases target.proxies with
  | none => cases target'.proxies <;> simp [SameProxies]
  | some configs =>
    cases target'.proxies with
    | none => simp [SameProxies]
    | some configs' =>
      rw [ProxyRoute.proxied.injEq]
      exact fromConfigs_eq_iff configs configs'

lemma Target.key_eq_iff (target' : Target) : target.key = target'.key ↔ target.Same target' := by
  unfold Target.key PoolKey.withHintAndRoute
  rw [PoolKey.mk.injEq, route_eq_iff]
  constructor
  · rintro ⟨ho, hp, hr, hf, he⟩
    exact ⟨beq_iff_eq.mpr (congrArg PoolOrigin.scheme ho),
      (PoolHost.new_eq_iff _ _).mp (congrArg PoolOrigin.host ho), congrArg PoolOrigin.port ho, hp, hr,
      hf, he⟩
  intro h
  refine ⟨?_, h.protocol, h.proxies, h.forcedAddr, h.h3Endpoint⟩
  have hpor := h.port
  rw [PoolOrigin.mk.injEq]
  exact ⟨beq_iff_eq.mp h.scheme, (PoolHost.new_eq_iff _ _).mpr h.host, hpor⟩

end Aioduct.Pool
