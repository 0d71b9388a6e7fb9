import Aioduct.Client.Frame

/-!
# Invariants of the request loop

The headers of the loop pass through a handful of operations. A property of the headers of a hop
that each of them keeps holds for every request that is ever sent.
-/

namespace Aioduct.Client

open Wire Http Cookies Digest List Option

variable {method : Method} {uri : Uri} {value : HeaderValue} {headers wire : MarkedHeaderMap}
  {applied : Option HeaderValue}

structure Place where
  uri : Uri
  past : List Hop
  selected : List Cookie
  answered : Bool

def Sent.place (r : Sent) : Place := ⟨r.uri, r.past, r.selected, r.answered⟩

def State.place (s : State) : Place := ⟨s.uri, s.past, s.selected, s.answered⟩

def IsDigestAnswer (value : HeaderValue) : Prop := ∃ rest, value.bytes = ascii "Digest " ++ rest

lemma isDigestAnswer_of_authorizePrepared {digest : DigestAuth} {counts counts' : NonceCounts}
    {cnonce : Bytes} {challenge : PreparedDigestChallenge}
    (h : authorizePrepared digest counts cnonce method uri challenge = (some value, counts')) :
    IsDigestAnswer value := by
  unfold authorizePrepared at h
  split at h
  · simp at h
  simp only at h
  split at h
  next hv =>
    obtain ⟨rfl⟩ := some.inj (Prod.mk.inj h).1
    exact authorizationValue_scheme hv
  · simp at h

/-- The property is kept by everything that is done to the headers. -/
structure Carried (settings : Settings) (Good : Place → MarkedHeaderMap → Prop) : Prop where
  finishes : ∀ {place headers headers'}, Good place headers → Finishes headers headers' →
    Good place headers'
  netrc : ∀ {place headers netrc}, settings.netrc = some netrc → Good place headers →
    Good place (netrc.apply headers place.uri)
  addCookies : ∀ {uri past selected answered headers}, Good ⟨uri, past, [], answered⟩ headers →
    ReadableCookies selected →
    Good ⟨uri, past, selected, answered⟩ (addCookies selected headers)
  removeCookies : ∀ {uri past selected answered headers},
    Good ⟨uri, past, selected, answered⟩ headers → ReadableCookies selected →
    Good ⟨uri, past, [], answered⟩ (removeCookies selected headers)
  answer : ∀ {uri past selected answered headers value},
    Good ⟨uri, past, selected, answered⟩ headers → IsDigestAnswer value →
    Good ⟨uri, past, selected, true⟩ (headers.insert .authorization ⟨value, false⟩)
  redirect : ∀ {uri past selected answered headers next},
    Good ⟨uri, past, selected, answered⟩ headers → LowerHost next →
    Good ⟨next, ⟨uri, selected, answered⟩ :: past, [], false⟩
      (setReferer settings.redirect.referer uri next
        (if sameOrigin uri next then headers
          else dropCredentials settings.redirect.sensitiveHeaders headers))

def Phase.snapshot : Phase → Option Snapshot
  | .ready => none
  | .waiting snapshot _ _ => snapshot
  | .ended snapshot _ => snapshot

structure SnapshotFits (Good : Place → MarkedHeaderMap → Prop) (s : State) (snapshot : Snapshot) :
    Prop where
  uri : snapshot.uri = s.uri
  good : Good s.place snapshot.headers
  applied : snapshot.appliedCookieHeader = contributionOf s.selected
  challenge : snapshot.digestChallenge.isSome = true → s.answered = true

structure Sound (Good : Place → MarkedHeaderMap → Prop) (s : State) : Prop where
  current : Good s.place s.headers
  jar : ∀ jar ∈ s.jar, ReadableEntries jar.entries
  readable : ReadableCookies s.selected
  sent : ∀ r ∈ s.sent, Good r.place r.headers

structure Inv (Good : Place → MarkedHeaderMap → Prop) (s : State) : Prop where
  sound : Sound Good s
  ready : s.phase = .ready → s.selected = [] ∧ s.answered = false
  snapshot : ∀ snapshot ∈ s.phase.snapshot, SnapshotFits Good s snapshot

section Steps

variable {settings : Settings} {request : Request} {Good : Place → MarkedHeaderMap → Prop}
  {s : State} {p : Preparation} {snapshot : Snapshot}

lemma Sound.stop (h : Sound Good s) {snapshot : Option Snapshot}
    (hs : ∀ snap ∈ snapshot, SnapshotFits Good s snap) (error : Option Error) :
    Inv Good (s.stop snapshot error) where
  sound := ⟨h.current, h.jar, h.readable, h.sent⟩
  ready := fun hr => Phase.noConfusion hr
  snapshot := fun snap hsna =>
    let hfits := hs snap hsna
    ⟨hfits.uri, hfits.good, hfits.applied, hfits.challenge⟩

lemma Sound.stop_none (h : Sound Good s) (error : Option Error) : Inv Good (s.stop none error) :=
  h.stop (fun _ hs => absurd hs (not_mem_none _)) error

lemma Carried.prepared (hgood : Carried settings Good) {past : List Hop}
    {answered : Bool} (jar : Option CookieJar) (p : Preparation)
    (site : Bytes) (h : Good ⟨uri, past, [], answered⟩ headers)
    (hr : ReadableCookies (selectedCookies jar p site uri)) :
    Good ⟨uri, past, selectedCookies jar p site uri, answered⟩
        (prepareRequestHeadersTracking settings.netrc settings.signer jar p site uri headers).1 ∧
      (prepareRequestHeadersTracking settings.netrc settings.signer jar p site uri headers).2 =
        contributionOf (selectedCookies jar p site uri) := by
  simp only [prepareRequestHeadersTracking, applyJar_eq, and_true]
  refine hgood.finishes (hgood.addCookies ?_ hr) (finishes_addSignedHost _ _ _)
  cases hn : settings.netrc with
  | none => exact h
  | some netrc => exact hgood.netrc hn h

lemma readable_selectedCookies (hj : ∀ jar ∈ s.jar, ReadableEntries jar.entries)
    (hw : walksJar s.jar p) (site : Bytes) (uri : Uri) :
    ReadableCookies (selectedCookies s.jar p site uri) := by
  unfold selectedCookies
  split
  next jar authority hsome _ =>
    simp only [walksJar, hsome, isPerm_iff] at hw
    exact readableCookies_matchingCookies (hj jar hsome) hw _
  · exact fun c hc => absurd hc not_mem_nil

lemma readable_shared (hj : ∀ jar ∈ s.jar, ReadableEntries jar.entries) (p : Preparation) :
    ∀ jar ∈ (s.shared p).jar, ReadableEntries jar.entries := by
  intro jar hm
  obtain ⟨old, hold, rfl⟩ := map_eq_some_iff.mp hm
  exact readableEntries_calls (hj old hold) p.jarCalls

lemma Sound.storeResponse (h : Sound Good s) (r : Reply) : Sound Good (storeResponse r s) := by
  refine ⟨h.current, fun jar hj => ?_, h.readable, h.sent⟩
  obtain ⟨old, hold, rfl⟩ := map_eq_some_iff.mp hj
  split
  · exact readableEntries_storeFromResponse (h.jar old hold)
  · exact h.jar old hold

section

variable (hgood : Carried settings Good)

include hgood

lemma Sound.transmit (h : Sound Good s) (ha : applied = contributionOf s.selected)
    (hw : Good s.place wire) (snapshotBody replayBody : Option Bytes) :
    Inv Good (transmit settings applied wire snapshotBody replayBody s) := by
  unfold Client.transmit
  split
  · exact h.stop_none _
  rename_i signed hsig
  have hs : Good s.place signed := hgood.finishes hw (finishes_signRequest hsig)
  refine ⟨⟨h.current, h.jar, h.readable, ?_⟩, fun hrea => Phase.noConfusion hrea, ?_⟩
  · intro r hr
    rcases mem_append.mp hr with hr | hr
    · exact h.sent r hr
    · obtain rfl := mem_singleton.mp hr
      exact hs
  · intro snap hsna
    obtain ⟨body, -, rfl⟩ := map_eq_some_iff.mp hsna
    exact ⟨rfl, hs, ha, fun hsome => absurd hsome Bool.false_ne_true⟩

lemma Inv.prepareHop (h : Inv Good s) (hrea : s.phase = .ready)
    (hw : walksJar (s.shared p).jar p) :
    Sound Good (prepareHop settings request p (s.shared p)).1 ∧
      (prepareHop settings request p (s.shared p)).2 =
        contributionOf (prepareHop settings request p (s.shared p)).1.selected := by
  have hj := readable_shared h.sound.jar p
  have hr := readable_selectedCookies hj hw request.site s.uri
  have hpla : Good ⟨s.uri, s.past, [], s.answered⟩ s.headers := by
    have hc := h.sound.current
    rwa [State.place, (h.ready hrea).1] at hc
  obtain ⟨hp, ha⟩ := hgood.prepared (s.shared p).jar p request.site hpla hr
  exact ⟨⟨hp, hj, hr, h.sound.sent⟩, ha⟩

lemma Sound.dispatchHop (h : Sound Good s)
    (ha : applied = contributionOf s.selected) (clock : Cache.Clock) :
    Inv Good (dispatchHop settings request clock applied s) := by
  unfold Client.dispatchHop
  split
  · exact h.stop_none _
  rename_i wire hw
  split
  · exact h.stop_none _
  rename_i validated hv
  have hf := (finishes_wireHeaders hw).trans (finishes_validatedHeaders hv)
  have hs : Sound Good { s with headers := syncCacheValidators validated s.headers } :=
    ⟨hgood.finishes h.current (finishes_syncCacheValidators hf), h.jar, h.readable, h.sent⟩
  exact hs.transmit hgood ha (hgood.finishes h.current hf) _ _

lemma SnapshotFits.refreshed (h : SnapshotFits Good s snapshot) (digest : Option DigestAuth)
    (counts : NonceCounts) (cnonce : Bytes) :
    Good s.place (refreshDigestAuthorization digest counts cnonce snapshot).1 := by
  unfold refreshDigestAuthorization
  split
  next digest challenge hc =>
    split
    next value counts' hv =>
      have ha : s.answered := h.challenge (by rw [hc]; rfl)
      have hans := hgood.answer h.good (isDigestAnswer_of_authorizePrepared hv)
      rwa [State.place, ha]
    · exact h.good
  · exact h.good

lemma Inv.restoreHop (h : Inv Good s) (hs : SnapshotFits Good s snapshot)
    (hw : walksJar (s.shared p).jar p) (cnonce : Bytes) :
    Sound Good (restoreHop settings request p cnonce snapshot (s.shared p)).1 ∧
      (restoreHop settings request p cnonce snapshot (s.shared p)).2 =
        contributionOf (restoreHop settings request p cnonce snapshot (s.shared p)).1.selected := by
  have hj := readable_shared h.sound.jar p
  have hr := readable_selectedCookies hj hw request.site snapshot.uri
  have hrem : Good ⟨snapshot.uri, s.past, [], s.answered⟩
      (snapshot.appliedCookieHeader.elim
        (refreshDigestAuthorization settings.digestAuth s.nonceCounts cnonce snapshot).1
        (removeCookieContribution
          (refreshDigestAuthorization settings.digestAuth s.nonceCounts cnonce snapshot).1)) := by
    have hre := hgood.removeCookies
      (hs.refreshed hgood settings.digestAuth s.nonceCounts cnonce) h.sound.readable
    rw [hs.uri, hs.applied]
    exact hre
  obtain ⟨hp, ha⟩ :=
    hgood.prepared (s.shared p).jar p request.site hrem hr
  exact ⟨⟨hp, hj, hr, h.sound.sent⟩, ha⟩

lemma Inv.replayHop (h : Inv Good s) (hsna : SnapshotFits Good s snapshot)
    (hw : walksJar (s.shared p).jar p) (cnonce : Bytes) :
    Inv Good (replayHop settings request p cnonce snapshot (s.shared p)) := by
  unfold Client.replayHop
  split
  · have hs : Sound Good (s.shared p) :=
      ⟨h.sound.current, readable_shared h.sound.jar p, h.sound.readable, h.sound.sent⟩
    exact hs.stop_none _
  · obtain ⟨hs, ha⟩ := h.restoreHop hgood hsna hw cnonce
    exact hs.transmit hgood ha hs.current _ _

lemma Sound.sendAuthenticated (h : Sound Good s) (hs : SnapshotFits Good s snapshot)
    (hv : IsDigestAnswer value) (challenge : PreparedDigestChallenge)
    (replayBody : Option Bytes) :
    Inv Good (sendAuthenticated settings value challenge snapshot replayBody s) := by
  unfold Client.sendAuthenticated
  simp only
  split
  · refine h.stop (fun snap hsna => ?_) _
    cases hsna
    exact hs
  rename_i wire hw
  have ha := hgood.answer hs.good hv
  have hsen := hgood.finishes ha (finishes_signRequest hw)
  refine ⟨⟨ha, h.jar, h.readable, ?_⟩, fun hrea => Phase.noConfusion hrea, ?_⟩
  · intro r hr
    rcases mem_append.mp hr with hr | hr
    · exact h.sent r hr
    · obtain rfl := mem_singleton.mp hr
      rw [Sent.place, hs.uri]
      exact hsen
  · intro snap hsna
    cases hsna
    exact ⟨hs.uri, hsen, hs.applied, fun _ => rfl⟩

lemma Inv.answerChallenge (h : Inv Good s) (hs : SnapshotFits Good s snapshot) (r : Reply)
    (digest : DigestAuth) (challenge : PreparedDigestChallenge) (replayBody : Option Bytes) :
    Inv Good (answerChallenge settings r digest challenge snapshot replayBody s) := by
  have hsou : ∀ counts, Sound Good { s with nonceCounts := counts } := fun counts =>
    ⟨h.sound.current, h.sound.jar, h.sound.readable, h.sound.sent⟩
  have hf : ∀ counts, SnapshotFits Good { s with nonceCounts := counts } snapshot :=
    fun counts => ⟨hs.uri, hs.good, hs.applied, hs.challenge⟩
  unfold Client.answerChallenge
  split
  · refine (hsou _).stop (fun snap hsna => ?_) _
    cases hsna
    exact hf _
  next value counts hv =>
    exact (hsou counts).sendAuthenticated hgood (hf counts)
      (isDigestAnswer_of_authorizePrepared hv) challenge replayBody

variable [UrlParser]

lemma Carried.processRedirect {place : Place}
    (h : Good place headers) {shouldUpgrade : Bytes → Bool}
    {status : StatusCode} {responseHeaders : HeaderMap}
    {replayBody fragment : Option Bytes} {next : Redirection}
    (hn : processRedirect settings.redirect shouldUpgrade status responseHeaders place.uri method
      replayBody headers fragment = .ok (some next)) :
    Good ⟨next.uri, ⟨place.uri, place.selected, place.answered⟩ :: place.past, [], false⟩
        next.headers ∧
      maybeUpgradeHsts shouldUpgrade next.uri = next.uri := by
  unfold Client.processRedirect at hn
  simp only [bind_eq_ok] at hn
  obtain ⟨location, -, ⟨target, fragment'⟩, hr, hf⟩ := hn
  have hl : LowerHost (maybeUpgradeHsts shouldUpgrade target) := by
    intro host hh
    rw [hostOf_maybeUpgradeHsts] at hh
    exact lowerHost_resolveRedirect hr host hh
  unfold followRedirect at hf
  split at hf
  · cases hf
  simp only [bind_eq_ok] at hf
  obtain ⟨⟨method', body, rewritten⟩, hrew, hf⟩ := hf
  obtain rfl := some.inj (Except.ok.inj hf)
  have hh := hgood.finishes h
    ((finishes_rewriteMethod hrew).trans
      (finishes_updateHost (maybeUpgradeHsts shouldUpgrade target) _))
  exact ⟨hgood.redirect hh hl, maybeUpgradeHsts_idem shouldUpgrade target⟩

lemma Inv.postExecute (h : Inv Good s)
    {snapshot : Option Snapshot} (hsn : ∀ snap ∈ snapshot, SnapshotFits Good s snap)
    (r : Reply) (replayBody : Option Bytes) :
    Inv Good (postExecute settings r snapshot replayBody s) := by
  have hs := h.sound.storeResponse r
  have hf : ∀ snap ∈ snapshot, SnapshotFits Good (storeResponse r s) snap := fun snap hsna =>
    let hf := hsn snap hsna
    ⟨hf.uri, hf.good, hf.applied, hf.challenge⟩
  unfold Client.postExecute
  simp only
  split
  · exact hs.stop hf _
  split
  · exact hs.stop hf _
  · exact hs.stop hf _
  rename_i next hn
  obtain ⟨hg', hup⟩ := hgood.processRedirect h.sound.current hn
  unfold takeRedirect
  simp only [hup]
  split
  · exact hs.stop hf _
  split
  · exact hs.stop hf _
  · exact ⟨⟨hg', hs.jar, fun c hc => absurd hc not_mem_nil, hs.sent⟩,
      fun _ => ⟨rfl, rfl⟩, fun snap hsna => absurd hsna (not_mem_none _)⟩

lemma Inv.respondHop (h : Inv Good s)
    {snapshot : Option Snapshot} (hs : ∀ snap ∈ snapshot, SnapshotFits Good s snap)
    (r : Reply) (replayBody : Option Bytes) (mayAuthenticate : Bool) :
    Inv Good (respondHop settings r snapshot replayBody mayAuthenticate s) := by
  unfold Client.respondHop
  split
  next digest snap challenge ha =>
    have hm : snap ∈ snapshot := by
      unfold challengeToAnswer at ha
      split at ha
      · split at ha
        · obtain ⟨-, hp⟩ := Prod.mk.inj (some.inj ha)
          cases hp
          rfl
        · cases ha
      · cases ha
    exact h.answerChallenge hgood (hs snap hm) r digest challenge replayBody
  · exact h.postExecute hgood hs r replayBody

theorem Inv.step {s s' : State} (h : Inv Good s)
    {event : Event} (hs : step settings request s event = some s') : Inv Good s' := by
  cases event with
  | send p =>
    simp only [Client.step] at hs
    split at hs
    next hr =>
      split at hs
      next hw =>
        cases hs
        obtain ⟨hsou, ha⟩ := h.prepareHop hgood hr hw
        exact hsou.dispatchHop hgood ha p.clock
      · cases hs
    · cases hs
  | leave error =>
    simp only [Client.step] at hs
    split at hs
    next snapshot replayBody mayAuthenticate hp =>
      cases hs
      refine h.sound.stop (fun snap hsna => h.snapshot snap ?_) error
      rw [hp]
      exact hsna
    · cases hs
  | respond r =>
    simp only [Client.step] at hs
    split at hs
    next snapshot replayBody mayAuthenticate hp =>
      cases hs
      refine h.respondHop hgood (fun snap hsna => h.snapshot snap ?_) r replayBody mayAuthenticate
      rw [hp]
      exact hsna
    · cases hs
  | replay p cnonce =>
    simp only [Client.step] at hs
    split at hs
    next snapshot error hp =>
      split at hs
      next hw =>
        cases hs
        refine h.replayHop hgood (h.snapshot snapshot ?_) hw cnonce
        rw [hp]
        rfl
      · cases hs
    · cases hs

/-- A property that is kept by everything and holds of the first headers holds of every request
that is sent. -/
theorem good_of_sent {start : Start}
    (hi : Good ⟨(initial settings request start).uri, [], [], false⟩
      (initial settings request start).headers)
    {events : List Event} {s : State} (hrun : run settings request start events = some s) {r : Sent}
    (hr : r ∈ s.sent) : Good r.place r.headers := by
  have hsta : Inv Good (initial settings request start) := by
    refine ⟨⟨hi, ?_, fun c hc => absurd hc not_mem_nil,
      fun r hr => absurd hr not_mem_nil⟩, fun _ => ⟨rfl, rfl⟩, ?_⟩
    · intro jar hj
      obtain ⟨calls, -, rfl⟩ := map_eq_some_iff.mp hj
      exact readableEntries_calls (fun entry he => absurd he not_mem_nil) calls
    · intro snap hs
      simp only [initial] at hs
      split at hs <;> exact absurd hs (not_mem_none _)
  exact (run_induction hsta (fun _ _ _ h hste => h.step hgood hste) hrun).sound.sent r hr

end

end Steps

end Aioduct.Client
