import Aioduct.Client.Flow
import Aioduct.Cookies.Accepted

/-!
# What the steps of the loop do to the headers

What finishing a request, the jar and the target of a redirect change.
-/

namespace Aioduct.Client

open MessageSignatures (MessageSigner)
open Wire Http Cookies MultiMap List AgreeOff CookieJar Assoc

variable {value : MarkedValue} {line path location : Bytes} {entries : Entries} {now : SystemTime}
  {h₁ h₂ h₃ target source : MarkedHeaderMap} {method : Method} {body : Option RequestBody}
  {bytes original fragment : Option Bytes}

def isTextByte (b : UInt8) : Bool := isVisible b || b == byte '\t'

def ReadableCookies (cookies : List Cookie) : Prop :=
  ∀ c ∈ cookies, (∀ b ∈ c.name, isTextByte b = true) ∧ ∀ b ∈ c.value, isTextByte b = true

variable (selected : List Cookie)

def contributionOf : Option HeaderValue :=
  if selected.isEmpty then none else HeaderValue.fromStr (cookieHeader selected)

def addCookies (headers : MarkedHeaderMap) : MarkedHeaderMap :=
  (contributionOf selected).elim headers fun value => mergeCookieHeader headers value.bytes value

def removeCookies (headers : MarkedHeaderMap) : MarkedHeaderMap :=
  (contributionOf selected).elim headers (removeCookieContribution headers)

lemma applyToRequestTracking_eq (jar : CookieJar) (order : Entries) (request : CookieRequest)
    (headers : MarkedHeaderMap) :
    jar.applyToRequestTracking order request headers =
      (addCookies (jar.matchingCookies order request) headers,
        contributionOf (jar.matchingCookies order request)) := by
  have hc : jar.contribution order request =
      contributionOf (jar.matchingCookies order request) := rfl
  simp only [applyToRequestTracking, addCookies, ← hc]
  split
  next hnone =>
    rw [hnone]
    rfl
  next value hsome =>
    rw [hsome]
    rfl

lemma applyJar_eq (jar : Option CookieJar) (p : Preparation) (site : Bytes) (uri : Uri)
    (headers : MarkedHeaderMap) :
    applyJar jar p site uri headers =
      (addCookies (selectedCookies jar p site uri) headers,
        contributionOf (selectedCookies jar p site uri)) := by
  unfold applyJar selectedCookies
  split
  · exact applyToRequestTracking_eq _ _ _ _
  · rfl

lemma agreeOff_addCookies (headers : MarkedHeaderMap) :
    AgreeOff [.cookie] headers (addCookies selected headers) := by
  unfold addCookies
  cases contributionOf selected with
  | none => exact refl _ _
  | some value =>
    simp only [Option.elim_some, mergeCookieHeader]
    split
    · split
      · exact agreeOff_insert mem_cons_self headers _
      · exact refl _ _
    · exact agreeOff_insert mem_cons_self headers _

lemma agreeOff_removeCookies (headers : MarkedHeaderMap) :
    AgreeOff [.cookie] headers (removeCookies selected headers) := by
  unfold removeCookies
  cases contributionOf selected with
  | none => exact refl _ _
  | some value =>
    simp only [Option.elim_some, removeCookieContribution]
    split
    · split
      · exact agreeOff_remove mem_cons_self headers
      · split
        · exact agreeOff_insert mem_cons_self headers _
        · exact refl _ _
    · exact refl _ _

def ReadableEntries (entries : Entries) : Prop := ∀ entry ∈ entries, ReadableCookies entry.2

lemma isTextByte_of_toStr {value : HeaderValue} (h : value.toStr = some line) :
    ∀ b ∈ line, isTextByte b := by
  unfold HeaderValue.toStr at h
  split at h
  next hall =>
    cases h
    exact all_eq_true.mp hall
  · cases h

variable {domain : Bytes} {jar : CookieJar} {headers headers' : MarkedHeaderMap} {name : HeaderName}

lemma readableEntries_storeCookie {cookie : Cookie}
    (he : ReadableEntries entries) (hcoo : ReadableCookies [cookie]) :
    ReadableEntries (storeCookie entries domain cookie) := by
  intro entry hent
  rcases mem_replaceOrAppend hent with hm | rfl
  · exact he entry hm
  have hold : ReadableCookies (cookiesOf entries (cookie.domain.getD domain)) := by
    unfold cookiesOf
    cases hg : get entries (cookie.domain.getD domain) with
    | none => exact fun c hc => absurd hc not_mem_nil
    | some cookies => exact he _ (mem_of_get hg)
  intro c hc
  simp only [Keyed.apply] at hc
  split at hc
  · exact hold c (mem_of_mem_filter hc)
  · rcases Keyed.of_mem_upsert hc with rfl | hc
    · exact hcoo c mem_cons_self
    · exact hold c hc

lemma readableEntries_storeLine (h : ReadableEntries jar.entries) (value : HeaderValue) :
    ReadableEntries (jar.storeLine now domain path value).entries := by
  unfold storeLine
  split
  · exact h
  split
  · exact h
  rename_i line hl
  split
  next cookie hp =>
    have ha := accepted_of_parseSetCookie hp
    refine readableEntries_storeCookie h fun c hc => ?_
    obtain rfl := mem_singleton.mp hc
    exact ⟨fun b hb => isTextByte_of_toStr hl b (ha.name_text b hb),
      fun b hb => isTextByte_of_toStr hl b (ha.value_text b hb)⟩
  · exact h
  · exact h

lemma readableEntries_storeFromResponse {headers : HeaderMap} (h : ReadableEntries jar.entries) :
    ReadableEntries (jar.storeFromResponse now domain path headers).entries := by
  unfold storeFromResponse
  generalize headers.getAll .setCookie = values
  induction values generalizing jar with
  | nil => exact h
  | cons value values ih => exact ih (readableEntries_storeLine h value)

lemma readableEntries_calls (h : ReadableEntries jar.entries) (calls : List JarCall) :
    ReadableEntries (calls.foldl CookieJar.call jar).entries := by
  induction calls generalizing jar with
  | nil => exact h
  | cons call calls ih =>
    apply ih
    cases call with
    | storeFromResponse now domain path headers => exact readableEntries_storeFromResponse h
    | applyToRequest order request headers => exact h

lemma readableCookies_matchingCookies {order : Entries} (h : ReadableEntries jar.entries)
    (ho : order.Perm jar.entries) (request : CookieRequest) :
    ReadableCookies (jar.matchingCookies order request) := by
  intro c hc
  unfold matchingCookies at hc
  split at hc
  · cases hc
  obtain ⟨entry, he, hc⟩ := mem_flatMap.mp hc
  exact h entry (ho.mem_iff.mp he) c (mem_of_mem_filter hc)

/-- The fields that are changed after netrc and the jar, and by the redirect step for the method
and the host. -/
def wireNames : List HeaderName :=
  [.transferEncoding, .contentLength, .contentType, .contentEncoding, DigestFields.contentDigest,
    .ifNoneMatch, .ifModifiedSince, .host, MessageSignatures.signatureName,
    MessageSignatures.signatureInputName]

lemma marksFrom_remove (headers : MarkedHeaderMap) (name : HeaderName) :
    MarksFrom headers (headers.remove name) := by
  intro other v _ hm
  by_cases ho : other = name
  · rw [ho, getAll_remove_self] at hm
    cases hm
  · rwa [getAll_remove_of_ne ho] at hm

lemma marksFrom_insert (h : MarksFrom headers headers')
    (hv : value.sensitive → value ∈ headers.getAll name) :
    MarksFrom headers (headers'.insert name value) := by
  intro other v hs hm
  by_cases ho : other = name
  · subst ho
    rw [getAll_insert_self, mem_singleton] at hm
    subst hm
    exact hv hs
  · rw [getAll_insert_of_ne ho] at hm
    exact h other v hs hm

lemma marksFrom_insert_plain (headers : MarkedHeaderMap) (name : HeaderName)
    (value : HeaderValue) : MarksFrom headers (headers.insert name ⟨value, false⟩) :=
  marksFrom_insert (fun _ _ _ h => h) fun hs => absurd hs Bool.false_ne_true

structure Finishes (headers headers' : MarkedHeaderMap) : Prop where
  agreeOff : AgreeOff wireNames headers headers'
  marks : MarksFrom headers headers'

namespace Finishes

lemma refl (headers : MarkedHeaderMap) : Finishes headers headers :=
  ⟨AgreeOff.refl _ _, fun _ _ _ h => h⟩

lemma trans (h : Finishes h₁ h₂) (h' : Finishes h₂ h₃) : Finishes h₁ h₃ :=
  ⟨h.agreeOff.trans h'.agreeOff,
    fun name value hs hm => h.marks name value hs (h'.marks name value hs hm)⟩

section

variable {name : HeaderName} (hname : name ∈ wireNames) (headers : MarkedHeaderMap)

include hname

lemma remove : Finishes headers (headers.remove name) :=
  ⟨agreeOff_remove hname headers, marksFrom_remove headers name⟩

lemma insert_plain (value : HeaderValue) : Finishes headers (headers.insert name ⟨value, false⟩) :=
  ⟨agreeOff_insert hname headers _, marksFrom_insert_plain headers name value⟩

end

end Finishes

lemma finishes_addSignedHost (signer : Option MessageSigner) (uri : Uri)
    (headers : MarkedHeaderMap) : Finishes headers (addSignedHost signer uri headers) := by
  unfold addSignedHost
  split
  · split
    · split
      · exact .insert_plain (by decide) headers _
      · exact .refl headers
    · exact .refl headers
  · exact .refl headers

lemma finishes_signRequest {signer : Option MessageSigner} {target requestTarget : Uri}
    (h : signRequest signer method target requestTarget headers = .ok headers') :
    Finishes headers headers' := by
  unfold signRequest at h
  split at h
  · obtain ⟨lines, -, h⟩ := bind_eq_ok.mp h
    cases h
    exact (Finishes.insert_plain (by decide) headers _).trans (.insert_plain (by decide) _ _)
  · cases h
    exact .refl headers

lemma finishes_wireHeaders {request : Request}
    (h : wireHeaders request body headers = .ok headers') : Finishes headers headers' := by
  have hr : Finishes headers ((headers.remove .transferEncoding).remove .contentLength) :=
    (Finishes.remove (by decide) headers).trans (Finishes.remove (by decide) _)
  unfold wireHeaders applyAutomaticContentDigest at h
  split at h
  · cases h
    exact hr
  split at h
  · cases h
    exact hr
  · split at h
    · cases h
      exact hr.trans (.insert_plain (by decide) _ _)
    · cases h
  · cases h

lemma finishes_applyValidator (hname : name ∈ wireNames) (text : Option Bytes)
    (headers : MarkedHeaderMap) : Finishes headers (applyValidator name text headers) := by
  unfold applyValidator
  split
  · exact .insert_plain hname headers _
  · exact .refl headers

lemma finishes_validatedHeaders {lookup : Cache.CacheLookup}
    (h : validatedHeaders lookup headers = some headers') : Finishes headers headers' := by
  unfold validatedHeaders at h
  split at h
  · cases h
  · cases h
    exact (finishes_applyValidator (by decide) _ headers).trans
      (finishes_applyValidator (by decide) _ _)
  · cases h
    exact .refl headers

lemma finishes_syncValidator (h : Finishes headers source)
    (ht : Finishes headers target) (hname : name ∈ wireNames) :
    Finishes headers (syncValidator source target name) := by
  unfold syncValidator
  split
  next value hv =>
    exact ⟨ht.agreeOff.trans (agreeOff_insert hname target value),
      marksFrom_insert ht.marks fun hs => h.marks name value hs (mem_of_head? hv)⟩
  · exact ht

lemma finishes_syncCacheValidators (h : Finishes headers source) :
    Finishes headers (syncCacheValidators source headers) :=
  finishes_syncValidator h (finishes_syncValidator h (.refl headers) (by decide))
    (by decide)

lemma finishes_updateHost (next : Uri) (headers : MarkedHeaderMap) :
    Finishes headers (updateHost next headers) := by
  unfold updateHost
  split
  · split
    · split
      · exact .insert_plain (by decide) headers _
      · exact .refl headers
    · exact .refl headers
  · exact .refl headers

lemma finishes_rewriteMethod {status : StatusCode} {method' : Method}
    (h : rewriteMethod status method bytes headers = .ok (method', body, headers')) :
    Finishes headers headers' := by
  have hd : Finishes headers (dropContentHeaders headers) :=
    ((Finishes.remove (by decide) headers).trans (Finishes.remove (by decide) _)).trans
      (.remove (by decide) _)
  unfold rewriteMethod at h
  grind [Finishes.refl]

def credentialNames : List HeaderName := [.authorization, .cookie, .proxyAuthorization]

def markedNames (headers : MarkedHeaderMap) : List HeaderName :=
  (headers.lines.filter fun line => line.2.sensitive).map Prod.fst

lemma mem_markedNames :
    name ∈ markedNames headers ↔ ∃ value ∈ headers.getAll name, value.sensitive := by
  simp only [markedNames, mem_map, mem_filter, mem_getAll]
  constructor
  · rintro ⟨⟨_, value⟩, ⟨hmem, hm⟩, rfl⟩
    exact ⟨value, hmem, hm⟩
  · rintro ⟨value, hmem, hm⟩
    exact ⟨(name, value), ⟨hmem, hm⟩, rfl⟩

lemma getAll_dropCredentials (sensitive : List HeaderName) (headers : MarkedHeaderMap)
    (name : HeaderName) :
    (dropCredentials sensitive headers).getAll name =
      if name ∈ sensitive then []
      else if name ∈ markedNames (credentialNames.foldl remove headers) then []
      else if name ∈ credentialNames then [] else headers.getAll name := by
  have heq : dropCredentials sensitive headers =
      sensitive.foldl remove
        ((markedNames (credentialNames.foldl remove headers)).foldl remove
          (credentialNames.foldl remove headers)) := rfl
  rw [heq, getAll_foldl_remove, getAll_foldl_remove, getAll_foldl_remove]

lemma getAll_dropCredentials_of_mem (hname : name ∈ credentialNames) (sensitive : List HeaderName)
    (headers : MarkedHeaderMap) : (dropCredentials sensitive headers).getAll name = [] := by
  rw [getAll_dropCredentials, if_pos hname]
  split
  · rfl
  · split <;> rfl

lemma getAll_dropCredentials_of_notMem (hname : name ∉ credentialNames)
    (sensitive : List HeaderName)
    (hmar : ∀ value ∈ headers.getAll name, value.sensitive = false) :
    (dropCredentials sensitive headers).getAll name =
      if name ∈ sensitive then [] else headers.getAll name := by
  have hu : name ∉ markedNames (credentialNames.foldl remove headers) := by
    rw [mem_markedNames, getAll_foldl_remove, if_neg hname]
    rintro ⟨value, hmem, hm⟩
    exact absurd ((hmar value hmem).symm.trans hm) Bool.false_ne_true
  rw [getAll_dropCredentials, if_neg hu, if_neg hname]

lemma unmarked_dropCredentials {sensitive : List HeaderName}
    (h : value ∈ (dropCredentials sensitive headers).getAll name) : value.sensitive = false := by
  rw [getAll_dropCredentials] at h
  split at h
  · cases h
  split at h
  · cases h
  rename_i hu
  rw [mem_markedNames, getAll_foldl_remove] at hu
  rw [Bool.eq_false_iff]
  exact fun hm => hu ⟨value, h, hm⟩

def LowerHost (uri : Uri) : Prop := ∀ host, hostOf uri = some host → lowercase host = host

variable (shouldUpgrade : Bytes → Bool)

lemma hostOf_maybeUpgradeHsts (uri : Uri) :
    hostOf (maybeUpgradeHsts shouldUpgrade uri) = hostOf uri := by
  unfold maybeUpgradeHsts
  split
  next authority ha =>
    split
    · simp only [hostOf, ha, Option.map_some, upgradedAuthority]
      split
      · rfl
      · split <;> rfl
    · rfl
  · rfl

lemma maybeUpgradeHsts_idem (uri : Uri) :
    maybeUpgradeHsts shouldUpgrade (maybeUpgradeHsts shouldUpgrade uri) =
      maybeUpgradeHsts shouldUpgrade uri := by
  unfold maybeUpgradeHsts
  cases ha : uri.authority with
  | none => simp [ha]
  | some authority =>
    by_cases hup : (uri.scheme == some (ascii "http") && shouldUpgrade authority.host)
    · have hs : (some (ascii "https") == some (ascii "http")) = false := by decide
      simp only [hup, if_true, hs, Bool.false_and, Bool.false_eq_true, if_false]
    · simp only [hup, if_false, ha, Bool.false_eq_true]

lemma scheme_of_checkTarget {next : Url} {r : Unit} (h : checkTarget next = .ok r)
    (original : Option Bytes) : (inheritFragment next original).scheme = ascii "http" ∨
      (inheritFragment next original).scheme = ascii "https" := by
  have hs : (inheritFragment next original).scheme = next.scheme := by
    unfold inheritFragment
    split
    · split <;> rfl
    · rfl
  unfold checkTarget at h
  split at h
  · cases h
  next hn =>
    rw [hs]
    simpa [or_iff_not_imp_left] using hn

lemma lowerHost_resolveRedirect [UrlParser] {base uri : Uri}
    (h : resolveRedirect base location original = .ok (uri, fragment)) : LowerHost uri := by
  unfold resolveRedirect at h
  simp only [bind_eq_ok] at h
  obtain ⟨-, -, -, -, next, -, _, hc, uri', hu, h⟩ := h
  cases h
  intro host hh
  cases hto : UrlParser.toUri (inheritFragment next original) with
  | error e => simp [hto, Except.mapError] at hu
  | ok u =>
    simp only [hto, Except.mapError, Except.ok.injEq] at hu
    subst hu
    exact UrlParser.toUri_host (scheme_of_checkTarget hc original) hto hh

end Aioduct.Client
