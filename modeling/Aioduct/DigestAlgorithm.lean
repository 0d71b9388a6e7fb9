import Aioduct.DigestAuth

/-!
# The algorithm of a digest answer

An answer has to be computed by the algorithm and the quality of protection that it announces. The
source chooses the hash by the exact text of the name and takes MD5 for all others.
-/

namespace Aioduct.Digest

open Wire Http List Option Assoc HeaderValue PreparedDigestChallenge DigestAuth

inductive Hash
  | md5
  | sha256
  deriving DecidableEq

def Hash.hexOf : Hash → Bytes → Bytes
  | .md5 => md5Hex
  | .sha256 => sha256Hex

/-- An algorithm of RFC 7616 that the client has; a session mixes both nonces into its key. -/
structure Algorithm where
  hash : Hash
  session : Bool
  deriving DecidableEq

def Algorithm.named (name : Bytes) : Option Algorithm :=
  if lowercase name = ascii "md5" then some ⟨.md5, false⟩
  else if lowercase name = ascii "md5-sess" then some ⟨.md5, true⟩
  else if lowercase name = ascii "sha-256" then some ⟨.sha256, false⟩
  else if lowercase name = ascii "sha-256-sess" then some ⟨.sha256, true⟩
  else none

structure Inputs where
  auth : DigestAuth
  method : Method
  path : Bytes
  realm : Bytes
  nonce : Bytes
  nc : Bytes
  cnonce : Bytes

namespace Inputs

variable (self : Inputs)

def key (hash : Bytes → Bytes) (session : Bool) : Bytes :=
  let first := hash (colon [self.auth.username, self.realm, self.auth.password])
  if session then hash (colon [first, self.nonce, self.cnonce]) else first

def responseBy (hash : Bytes → Bytes) (session qopAuth : Bool) : Bytes :=
  let ha2 := hash (colon [self.method.bytes, self.path])
  hash (colon (if qopAuth then
      [self.key hash session, self.nonce, self.nc, self.cnonce, ascii "auth", ha2]
    else [self.key hash session, self.nonce, ha2]))

/-- The response that the announced algorithm asks for. The key of a session needs the client's
nonce, which is sent with a quality of protection only. -/
def announced (algorithm : Algorithm) (qopAuth : Bool) : Option Bytes :=
  if algorithm.session && !qopAuth then none
  else some (self.responseBy algorithm.hash.hexOf algorithm.session qopAuth)

def front : Bytes :=
  ascii "Digest " ++
    (ascii ", ").intercalate [quoted (ascii "username") (esc self.auth.username),
      quoted (ascii "realm") (esc self.realm), quoted (ascii "nonce") (esc self.nonce),
      quoted (ascii "uri") (esc self.path), ascii "response" ++ ascii "=\""]

/-- The answer after its response: the quality of protection, the text to be given back and the
algorithm. -/
def back (algorithm : Bytes) (qopAuth : Bool) (opaqueText : Option Bytes) : Bytes :=
  ascii "\"" ++
    (if qopAuth then
        ascii ", qop=auth, nc=" ++ self.nc ++ ascii ", " ++ quoted (ascii "cnonce") self.cnonce
      else []) ++
    (opaqueText.elim [] fun text => ascii ", " ++ quoted (ascii "opaque") (esc text)) ++
    (if algorithm ≠ ascii "MD5" then ascii ", algorithm=" ++ algorithm else [])

end Inputs

namespace PreparedDigestChallenge

def algorithm (self : PreparedDigestChallenge) : Bytes :=
  (Assoc.get self.params (ascii "algorithm")).getD (ascii "MD5")

variable (self : PreparedDigestChallenge)

def qopAuth : Bool := (Assoc.get self.params (ascii "qop")).any hasQopAuth

/-- The challenge leaves the quality of protection open or offers one that the client has. -/
def acceptsQop : Bool := (Assoc.get self.params (ascii "qop")).all hasQopAuth

def inputs (auth : DigestAuth) (method : Method) (uri : Uri) (nc cnonce : Bytes) :
    Option Inputs := do
  let realm ← Assoc.get self.params (ascii "realm")
  let nonce ← Assoc.get self.params (ascii "nonce")
  pure ⟨auth, method, digestPath uri, realm, nonce, nc, cnonce⟩

/-- An answer to the challenge that keeps to what it announces. -/
def Announced (inputs : Inputs) (value : Bytes) : Prop :=
  self.acceptsQop = true ∧
    ∃ algorithm response, Algorithm.named self.algorithm = some algorithm ∧
      inputs.announced algorithm self.qopAuth = some response ∧
      value = inputs.front ++ response ++
        inputs.back self.algorithm self.qopAuth (Assoc.get self.params (ascii "opaque"))

end PreparedDigestChallenge

def hashOf (algorithm : Bytes) : Hash :=
  if algorithm == ascii "SHA-256" || algorithm == ascii "SHA-256-sess" then .sha256 else .md5

def isSession (algorithm : Bytes) : Bool := (ascii "-sess").isSuffixOf algorithm

variable (algorithm : Bytes)

lemma hashFn_eq : hashFn algorithm = (hashOf algorithm).hexOf := by
  unfold hashFn hashOf
  split <;> rfl

variable (inputs : Inputs)

lemma ha1_eq :
    inputs.auth.ha1 algorithm inputs.realm inputs.nonce inputs.cnonce =
      inputs.key (hashOf algorithm).hexOf (isSession algorithm) := by
  unfold ha1
  rw [hashFn_eq]
  rfl

lemma answer_eq (qopAuth : Bool)
    (opaqueText : Option Bytes) :
    inputs.auth.answer inputs.method inputs.path inputs.realm inputs.nonce algorithm qopAuth
        opaqueText inputs.nc inputs.cnonce =
      inputs.front ++
        inputs.responseBy (hashOf algorithm).hexOf (isSession algorithm) qopAuth ++
        inputs.back algorithm qopAuth opaqueText := by
  unfold answer
  rw [ha1_eq, hashFn_eq]
  cases qopAuth <;> cases opaqueText <;>
    simp [Inputs.front, Inputs.back, Inputs.responseBy, quoted, List.intercalate]

lemma authorizationValue_eq (self : DigestAuth) (method : Method) (uri : Uri)
    (challenge : PreparedDigestChallenge) (nc cnonce : Bytes) :
    self.authorizationValue method uri challenge nc cnonce =
      (challenge.inputs self method uri nc cnonce).bind fun inputs =>
        HeaderValue.fromStr (inputs.front ++
          inputs.responseBy (hashOf challenge.algorithm).hexOf (isSession challenge.algorithm)
            challenge.qopAuth ++
          inputs.back challenge.algorithm challenge.qopAuth
            (Assoc.get challenge.params (ascii "opaque"))) := by
  unfold authorizationValue inputs
  cases get challenge.params (ascii "realm") with
  | none => rfl
  | some realm =>
    cases get challenge.params (ascii "nonce") with
    | none => rfl
    | some nonce =>
      have ha := answer_eq challenge.algorithm
        ⟨self, method, digestPath uri, realm, nonce, nc, cnonce⟩ challenge.qopAuth
        (get challenge.params (ascii "opaque"))
      exact congrArg fromStr ha

def countText (counts : NonceCounts) (challenge : PreparedDigestChallenge) : Bytes :=
  hex32 (nextCount ((Assoc.get (evictCounts counts.length counts)
    ((Assoc.get challenge.params (ascii "nonce")).getD [])).getD 0))

lemma authorizePrepared_fst (self : DigestAuth) (counts : NonceCounts) (cnonce : Bytes)
    (method : Method) (uri : Uri) (challenge : PreparedDigestChallenge) :
    (authorizePrepared self counts cnonce method uri challenge).1 =
      self.authorizationValue method uri challenge (countText counts challenge) cnonce := by
  unfold authorizePrepared countText
  cases hn : get challenge.params (ascii "nonce") with
  | none =>
    rw [authorizationValue_eq, inputs, hn]
    cases get challenge.params (ascii "realm") <;> rfl
  | some nonce =>
    simp only [getD_some]
    split <;> simp_all

lemma visible_hex (s : Bytes) : Visible (hex s) := by
  have hd : ∀ n < 16, isVisible (hexDigit n) := by decide
  refine visible_flatMap fun b _ => ?_
  have hb := b.toNat_lt
  simp [hd (b.toNat / 16) (by omega), hd (b.toNat % 16) (by omega)]

def Hash.length : Hash → Nat
  | .md5 => 32
  | .sha256 => 64

lemma length_hexOf (hash : Hash) (s : Bytes) : (hash.hexOf s).length = hash.length := by
  cases hash with
  | md5 => exact length_hex (Md5.compute s)
  | sha256 => exact length_hex (Sha256.compute s)

lemma responseBy_ne {hash hash' : Hash} (h : hash ≠ hash') (inputs : Inputs)
    (session session' qopAuth : Bool) :
    inputs.responseBy hash.hexOf session qopAuth ≠
      inputs.responseBy hash'.hexOf session' qopAuth := by
  intro heq
  have hlen := congrArg List.length heq
  simp only [Inputs.responseBy, length_hexOf] at hlen
  cases hash <;> cases hash' <;> simp_all [Hash.length]

variable {algorithm name : Bytes}

lemma isSession_lowercase (h : isSession algorithm) : isSession (lowercase algorithm) := by
  obtain ⟨rest, rfl⟩ := isSuffixOf_iff_suffix.mp h
  unfold isSession
  rw [isSuffixOf_iff_suffix]
  exact ⟨lowercase rest, by simp [lowercase]; decide⟩

lemma isSession_of_lowercase (h : lowercase algorithm = name) (hn : isSession name = false) :
    isSession algorithm = false := by
  rw [Bool.eq_false_iff] at hn ⊢
  intro hs
  apply hn
  rw [← h]
  exact isSession_lowercase hs

lemma hashOf_eq_md5 (h : algorithm ≠ ascii "SHA-256")
    (hs : algorithm ≠ ascii "SHA-256-sess") : hashOf algorithm = .md5 := by
  simp [hashOf, h, hs]

lemma ne_of_lowercase {other : Bytes} (h : lowercase algorithm = name)
    (ho : lowercase other ≠ name) : algorithm ≠ other := by
  rintro rfl
  exact ho h

lemma hashOf_of_lowercase (h : lowercase algorithm = name)
    (hn : lowercase (ascii "SHA-256") ≠ name)
    (hs : lowercase (ascii "SHA-256-sess") ≠ name) : hashOf algorithm = .md5 :=
  hashOf_eq_md5 (ne_of_lowercase h hn) (ne_of_lowercase h hs)

/-- The response without the key of a session is by chance the one with it. -/
def Coincidence : Prop :=
  inputs.responseBy md5Hex false true = inputs.responseBy md5Hex true true

/-- The names with which the source computes the response that it announces. -/
def Implemented (algorithm : Bytes) (qopAuth : Bool) : Prop :=
  lowercase algorithm = ascii "md5" ∨ algorithm = ascii "SHA-256" ∨
    qopAuth = true ∧ (algorithm = ascii "SHA-256-sess" ∨
      lowercase algorithm = ascii "md5-sess" ∧
        (isSession algorithm = true ∨ Coincidence inputs))

def Agrees (algorithm : Bytes) (qopAuth : Bool) : Prop :=
  ∃ named, Algorithm.named algorithm = some named ∧
    inputs.announced named qopAuth =
      some (inputs.responseBy (hashOf algorithm).hexOf (isSession algorithm) qopAuth)

lemma agrees_iff_of_named {inputs : Inputs} {qopAuth : Bool} {named : Algorithm}
    (h : Algorithm.named algorithm = some named) :
    Agrees inputs algorithm qopAuth ↔
      (named.session → qopAuth) ∧
        inputs.responseBy named.hash.hexOf named.session qopAuth =
          inputs.responseBy (hashOf algorithm).hexOf (isSession algorithm) qopAuth := by
  simp only [Agrees, h, some.injEq, exists_eq_left', Inputs.announced]
  cases named.session <;> cases qopAuth <;> simp

lemma agrees_iff_md5 (h : lowercase algorithm = ascii "md5") (inputs : Inputs) (qopAuth : Bool) :
    Agrees inputs algorithm qopAuth ↔ Implemented inputs algorithm qopAuth := by
  have hn : Algorithm.named algorithm = some ⟨.md5, false⟩ := by simp [Algorithm.named, h]
  have hh := hashOf_of_lowercase h (by decide) (by decide)
  have hs := isSession_of_lowercase h (by decide)
  simp [agrees_iff_of_named hn, Implemented, h, hh, hs]

lemma agrees_iff_md5Sess (h : lowercase algorithm = ascii "md5-sess") (inputs : Inputs)
    (qopAuth : Bool) : Agrees inputs algorithm qopAuth ↔ Implemented inputs algorithm qopAuth := by
  have hn : Algorithm.named algorithm = some ⟨.md5, true⟩ := by
    simp only [Algorithm.named, h]
    decide
  have hh := hashOf_of_lowercase h (by decide) (by decide)
  have hm : ¬ascii "md5-sess" = ascii "md5" := by decide
  have hsha : algorithm ≠ ascii "SHA-256" := ne_of_lowercase h (by decide)
  have hs : algorithm ≠ ascii "SHA-256-sess" := ne_of_lowercase h (by decide)
  simp only [agrees_iff_of_named hn, Implemented, h, hm, hh, hsha, hs,
    Coincidence, Hash.hexOf, forall_const, false_or, true_and]
  cases qopAuth <;> cases isSession algorithm <;> simp [eq_comm]

lemma agrees_iff_sha256 (h : lowercase algorithm = ascii "sha-256") (inputs : Inputs)
    (qopAuth : Bool) : Agrees inputs algorithm qopAuth ↔ Implemented inputs algorithm qopAuth := by
  have hn : Algorithm.named algorithm = some ⟨.sha256, false⟩ := by
    simp only [Algorithm.named, h]
    decide
  have hs : algorithm ≠ ascii "SHA-256-sess" := ne_of_lowercase h (by decide)
  rw [agrees_iff_of_named hn]
  by_cases he : algorithm = ascii "SHA-256"
  · have hh : hashOf (ascii "SHA-256") = .sha256 := by decide
    have hses : isSession (ascii "SHA-256") = false := by decide
    simp [Implemented, he, hh, hses]
  have hne := responseBy_ne (show .sha256 ≠ .md5 by decide) inputs false
    (isSession algorithm) qopAuth
  have hmd5 : ¬ascii "sha-256" = ascii "md5" := by decide
  have hm : ¬ascii "sha-256" = ascii "md5-sess" := by decide
  simp [Implemented, hashOf_eq_md5 he hs, he, hs, h, hmd5, hm, hne]

lemma agrees_iff_sha256Sess (h : lowercase algorithm = ascii "sha-256-sess") (inputs : Inputs)
    (qopAuth : Bool) : Agrees inputs algorithm qopAuth ↔ Implemented inputs algorithm qopAuth := by
  have hn : Algorithm.named algorithm = some ⟨.sha256, true⟩ := by
    simp only [Algorithm.named, h]
    decide
  have hp : algorithm ≠ ascii "SHA-256" := ne_of_lowercase h (by decide)
  have hmd5 : ¬ascii "sha-256-sess" = ascii "md5" := by decide
  have hm : ¬ascii "sha-256-sess" = ascii "md5-sess" := by decide
  rw [agrees_iff_of_named hn]
  by_cases he : algorithm = ascii "SHA-256-sess"
  · have hh : hashOf algorithm = .sha256 := by
      rw [he]
      decide
    have hs : isSession algorithm := by
      rw [he]
      decide
    simp only [Implemented, hh, hs, hp, h, hmd5, forall_const, and_true, false_or]
    simp [he]
  · have hne := responseBy_ne (show .sha256 ≠ .md5 by decide) inputs true
      (isSession algorithm) qopAuth
    simp [Implemented, hashOf_eq_md5 hp he, he, hp, h, hmd5, hm, hne]

lemma agrees_iff (algorithm : Bytes) (qopAuth : Bool) :
    Agrees inputs algorithm qopAuth ↔ Implemented inputs algorithm qopAuth := by
  by_cases hmd5 : lowercase algorithm = ascii "md5"
  · exact agrees_iff_md5 hmd5 inputs qopAuth
  by_cases hm : lowercase algorithm = ascii "md5-sess"
  · exact agrees_iff_md5Sess hm inputs qopAuth
  by_cases hsha : lowercase algorithm = ascii "sha-256"
  · exact agrees_iff_sha256 hsha inputs qopAuth
  by_cases hs : lowercase algorithm = ascii "sha-256-sess"
  · exact agrees_iff_sha256Sess hs inputs qopAuth
  -- The name is no algorithm of the client, and the source knows it neither.
  have hn : Algorithm.named algorithm = none := by
    simp [Algorithm.named, hmd5, hm, hsha, hs]
  have hp : algorithm ≠ ascii "SHA-256" := by
    rintro rfl
    exact hsha (by decide)
  have he : algorithm ≠ ascii "SHA-256-sess" := by
    rintro rfl
    exact hs (by decide)
  simp [Agrees, hn, Implemented, hmd5, hm, hp, he]

variable (challenge : PreparedDigestChallenge)

lemma announced_iff (inputs : Inputs) :
    challenge.Announced inputs (inputs.front ++
        inputs.responseBy (hashOf challenge.algorithm).hexOf (isSession challenge.algorithm)
          challenge.qopAuth ++
        inputs.back challenge.algorithm challenge.qopAuth
          (Assoc.get challenge.params (ascii "opaque"))) ↔
      challenge.acceptsQop ∧
        Implemented inputs challenge.algorithm challenge.qopAuth := by
  rw [← agrees_iff]
  refine and_congr_right fun _ => exists_congr fun named => ?_
  constructor
  · rintro ⟨response, hn, hr, heq⟩
    have hc := append_cancel_left (append_cancel_right heq)
    exact ⟨hn, hc ▸ hr⟩
  · rintro ⟨hn, hr⟩
    exact ⟨_, hn, hr, rfl⟩

lemma fromStr_response (inputs : Inputs) (hash : Hash) (session qopAuth : Bool)
    (front back : Bytes) : fromStr (front ++ inputs.responseBy hash.hexOf session qopAuth ++ back) =
      none ↔ fromStr (front ++ back) = none := by
  have hv : Visible (inputs.responseBy hash.hexOf session qopAuth) := by
    cases hash with
    | md5 | sha256 => exact visible_hex _
  obtain ⟨value, -, hb, -⟩ := HeaderValue.fromStr_of_visible hv
  have ha := value.valid
  rw [hb] at ha
  simp only [fromStr, fromBytes, dite_eq_right_iff, reduceCtorEq, imp_false, List.all_append, ha,
    Bool.and_true]

/-- Every answer of the client keeps to what it announces exactly if the challenge names its
algorithm as the source does and offers a quality of protection that the client has. -/
theorem answer_announced_iff (self : DigestAuth) (counts : NonceCounts) (cnonce : Bytes)
    (method : Method) (uri : Uri) (challenge : PreparedDigestChallenge) :
    (∀ value, (authorizePrepared self counts cnonce method uri challenge).1 = some value →
        ∃ inputs, challenge.inputs self method uri (countText counts challenge) cnonce =
            some inputs ∧
          challenge.Announced inputs value.bytes) ↔
      (∀ inputs, challenge.inputs self method uri (countText counts challenge) cnonce =
          some inputs → HeaderValue.fromStr (inputs.front ++ inputs.back challenge.algorithm
            challenge.qopAuth (Assoc.get challenge.params (ascii "opaque"))) = none) ∨
        challenge.acceptsQop = true ∧
          ∃ inputs, challenge.inputs self method uri (countText counts challenge) cnonce =
              some inputs ∧
            Implemented inputs challenge.algorithm challenge.qopAuth := by
  rw [authorizePrepared_fst, authorizationValue_eq]
  cases challenge.inputs self method uri (countText counts challenge) cnonce with
  | none => simp
  | some inputs =>
    simp only [bind_some, some.injEq, exists_eq_left', forall_eq', ← announced_iff]
    rw [← fromStr_response inputs (hashOf challenge.algorithm) (isSession challenge.algorithm)
      challenge.qopAuth]
    cases hv : fromStr (inputs.front ++
        inputs.responseBy (hashOf challenge.algorithm).hexOf (isSession challenge.algorithm)
          challenge.qopAuth ++
        inputs.back challenge.algorithm challenge.qopAuth
          (get challenge.params (ascii "opaque"))) with
    | none => simp
    | some value => simp [fromStr_bytes hv]

def challengeWith (name value : Bytes) : PreparedDigestChallenge :=
  ⟨[(ascii "realm", ascii "r"), (ascii "nonce", ascii "n"), (name, value)]⟩

def shaHeaders : HeaderMap :=
  ⟨[(wwwAuthenticate, ⟨ascii "Digest realm=\"r\", nonce=\"n\", algorithm=sha-256", by decide⟩)]⟩

def integrityHeaders : HeaderMap :=
  ⟨[(wwwAuthenticate, ⟨ascii "Digest realm=\"r\", nonce=\"n\", qop=\"auth-int\"", by decide⟩)]⟩

def sampleInputs : Inputs where
  auth := ⟨ascii "user", ascii "secret"⟩
  method := .get
  path := ascii "/"
  realm := ascii "r"
  nonce := ascii "n"
  nc := ascii "00000001"
  cnonce := ascii "00000000deadbeef"

def firstAnswer : Option Bytes :=
  (authorizePrepared sampleInputs.auth [] sampleInputs.cnonce sampleInputs.method
    ⟨none, none, ascii "/", none, none⟩ challenge).1.map HeaderValue.bytes

def sampleAnswer : Bytes :=
  ascii "Digest username=\"user\", realm=\"r\", nonce=\"n\", uri=\"/\", response=\"" ++
    ascii "cc862b05fc7ff4c4e92a6707ec24db96" ++ ascii "\""

/-- SHA-256 is announced and MD5 computed; and where only `auth-int` is offered, an answer without
any quality of protection is given. -/
theorem announced_hash_not_used :
    (prepare shaHeaders = some (challengeWith (ascii "algorithm") (ascii "sha-256")) ∧
      firstAnswer (challengeWith (ascii "algorithm") (ascii "sha-256")) =
        some (sampleAnswer ++ ascii ", algorithm=sha-256") ∧
      ¬(challengeWith (ascii "algorithm") (ascii "sha-256")).Announced sampleInputs
        (sampleAnswer ++ ascii ", algorithm=sha-256")) ∧
    (prepare integrityHeaders = some (challengeWith (ascii "qop") (ascii "auth-int")) ∧
      firstAnswer (challengeWith (ascii "qop") (ascii "auth-int")) = some sampleAnswer ∧
      ¬(challengeWith (ascii "qop") (ascii "auth-int")).Announced sampleInputs sampleAnswer) := by
  refine ⟨⟨by decide +kernel, by decide +kernel, ?_⟩, by decide +kernel, by decide +kernel, ?_⟩
  · rintro ⟨-, algorithm, response, hn, hr, ht⟩
    obtain rfl : (⟨.sha256, false⟩ : Algorithm) = algorithm := by
      apply some.inj
      rw [← hn]
      decide
    -- The texts have different lengths.
    have hl := congrArg List.length ht
    simp only [Inputs.announced, Bool.false_and, Bool.false_eq_true, if_false, some.injEq] at hr
    subst hr
    exact absurd hl (by decide +kernel)
  · rintro ⟨hq, -⟩
    exact absurd hq (by decide)

end Aioduct.Digest
