import Aioduct.Client.Chain

/-!
# The `Referer` of a redirect chain

The redirect step writes a `Referer` of the URL before, unless the step leaves HTTPS. It takes none
out when it writes none.
-/

namespace Aioduct.Client

open Wire Http List Option HeaderValue MultiMap Bool

def writesReferer (settings : RedirectSettings) (current next : Uri) : Bool :=
  settings.referer && !isDowngrade current next &&
    (HeaderValue.fromStr (refererText current next)).isSome

/-- The hop takes the `Referer` out because the client lists it as sensitive. -/
def removesReferer (settings : RedirectSettings) (current next : Uri) : Bool :=
  !sameOrigin current next && settings.sensitiveHeaders.contains .referer

/-- The lines of a hop, from its URL and those of the hops before it, the latest first. -/
def refererLines (settings : RedirectSettings) : Uri → List Uri → List MarkedValue
  | _, [] => []
  | next, current :: past =>
    if writesReferer settings current next then
      ((HeaderValue.fromStr (refererText current next)).map fun value => ⟨value, false⟩).toList
    else if removesReferer settings current next then []
    else refererLines settings current past

def hasReferer (settings : RedirectSettings) : Uri → List Uri → Bool
  | _, [] => false
  | next, current :: past =>
    writesReferer settings current next ||
      (!removesReferer settings current next && hasReferer settings current past)

variable {settings : RedirectSettings}

lemma refererLines_eq_nil (uri : Uri) (past : List Uri) :
    refererLines settings uri past = [] ↔ hasReferer settings uri past = false := by
  induction past generalizing uri with
  | nil => simp [refererLines, hasReferer]
  | cons current past ih =>
    cases hw : writesReferer settings current uri with
    | true =>
      simp only [writesReferer, and_eq_true] at hw
      obtain ⟨value, hv⟩ := isSome_iff_exists.mp hw.2
      simp [refererLines, hasReferer, writesReferer, hw, hv]
    | false =>
      cases hr : removesReferer settings current uri with
      | true => simp [refererLines, hasReferer, hw, hr]
      | false => simpa [refererLines, hasReferer, hw, hr] using ih current

lemma unmarked_refererLines {uri : Uri} {past : List Uri} {value : MarkedValue}
    (h : value ∈ refererLines settings uri past) : value.sensitive = false := by
  induction past generalizing uri with
  | nil => cases h
  | cons current past ih =>
    rw [refererLines] at h
    split at h
    · obtain ⟨text, -, rfl⟩ := map_eq_some_iff.mp (mem_toList.mp h)
      rfl
    split at h
    · cases h
    · exact ih h

def RefererLeft (settings : RedirectSettings) (place : Place) (headers : MarkedHeaderMap) : Prop :=
  headers.getAll .referer = refererLines settings place.uri (place.past.map Hop.uri)

lemma getAll_setReferer (enabled : Bool) (current next : Uri) (headers : MarkedHeaderMap) :
    (setReferer enabled current next headers).getAll .referer =
      if enabled && !isDowngrade current next &&
          (fromStr (refererText current next)).isSome then
        ((fromStr (refererText current next)).map fun value => ⟨value, false⟩).toList
      else headers.getAll .referer := by
  unfold setReferer
  cases enabled && !isDowngrade current next with
  | false => rfl
  | true =>
    cases fromStr (refererText current next) with
    | none => rfl
    | some value => simp

lemma carried_refererLeft (settings : Settings) :
    Carried settings (RefererLeft settings.redirect) where
  finishes := fun h hf => (hf.agreeOff .referer (by decide)).trans h
  netrc := fun {place headers netrc} _ h => by
    unfold Netrc.apply
    split
    · exact h
    split
    · exact (MultiMap.getAll_insert_of_ne (by decide) headers _).trans h
    · exact h
  addCookies := fun {uri past selected answered headers} h _ =>
    (agreeOff_addCookies selected headers .referer (by decide)).trans h
  removeCookies := fun {uri past selected answered headers} h _ =>
    (agreeOff_removeCookies selected headers .referer (by decide)).trans h
  answer := fun {uri past selected answered headers value} h _ =>
    (MultiMap.getAll_insert_of_ne (by decide) headers _).trans h
  redirect := fun {uri past selected answered headers next} h _ => by
    have hd : (if sameOrigin uri next then headers
        else dropCredentials settings.redirect.sensitiveHeaders headers).getAll .referer =
        if removesReferer settings.redirect uri next then []
        else refererLines settings.redirect uri (past.map Hop.uri) := by
      have hl : headers.getAll .referer = refererLines settings.redirect uri (past.map Hop.uri) := h
      cases hs : sameOrigin uri next with
      | true => simp [removesReferer, hs, hl]
      | false =>
        have hu : ∀ value ∈ headers.getAll .referer, value.sensitive = false :=
          fun value hv => unmarked_refererLines (hl ▸ hv)
        rw [if_neg Bool.false_ne_true, getAll_dropCredentials_of_notMem (by decide) _ hu, hl]
        simp [removesReferer, hs]
    rw [RefererLeft, getAll_setReferer, hd]
    rfl

/-- A `Referer` of the request is that of the URL before it, and the step did not leave HTTPS. -/
def RefererFresh (r : Sent) : Prop :=
  ∀ value ∈ r.headers.getAll .referer, ∃ hop past, r.past = hop :: past ∧
    value.value.bytes = refererText hop.uri r.uri ∧ isDowngrade hop.uri r.uri = false

/-- A hop that writes no `Referer` finds none of an earlier hop. -/
def NothingStale (settings : RedirectSettings) (r : Sent) : Prop :=
  ∀ hop past, r.past = hop :: past → writesReferer settings hop.uri r.uri = false →
    removesReferer settings hop.uri r.uri = true ∨
      hasReferer settings hop.uri (past.map Hop.uri) = false

lemma refererFresh_iff (he : settings.referer) {r : Sent}
    (h : RefererLeft settings r.place r.headers) : RefererFresh r ↔ NothingStale settings r := by
  have hl : r.headers.getAll .referer = refererLines settings r.uri (r.past.map Hop.uri) := h
  unfold RefererFresh NothingStale
  rw [hl]
  cases hpas : r.past with
  | nil => simp [refererLines]
  | cons hop past =>
    rw [map_cons, refererLines]
    cases hw : writesReferer settings hop.uri r.uri with
    | true =>
      -- the line of this hop names the page that it comes from
      have hp := hw
      simp only [writesReferer, and_eq_true, not_eq_true'] at hp
      obtain ⟨text, ht⟩ := isSome_iff_exists.mp hp.2
      simp only [if_true, ht, map_some, toList_some, mem_singleton, forall_eq]
      constructor
      · rintro - hop' past' heq hn
        obtain ⟨rfl, rfl⟩ := List.cons.inj heq
        rw [hw] at hn
        cases hn
      · rintro -
        exact ⟨hop, past, rfl, fromStr_bytes ht, hp.1.2⟩
    | false =>
      -- a line that is left cannot be that of this hop
      have hf : ∀ value : HeaderValue, value.bytes = refererText hop.uri r.uri →
          isDowngrade hop.uri r.uri := by
        intro value hb
        have hsome : fromStr (refererText hop.uri r.uri) = some value := by
          rw [← hb, fromStr_self]
        by_contra hd
        simp [writesReferer, he, hd, hsome] at hw
      cases hr : removesReferer settings hop.uri r.uri with
      | true =>
        refine iff_of_true (fun value hv => ?_) fun hop' past' heq _ => ?_
        · rw [if_pos rfl] at hv
          cases hv
        · obtain ⟨rfl, rfl⟩ := List.cons.inj heq
          exact Or.inl hr
      | false =>
        constructor
        · intro hfre hop' past' heq _
          obtain ⟨rfl, rfl⟩ := List.cons.inj heq
          right
          rw [← refererLines_eq_nil, eq_nil_iff_forall_not_mem]
          intro value hv
          obtain ⟨hop'', past'', heq', hb, hd⟩ := hfre value hv
          obtain ⟨rfl, rfl⟩ := List.cons.inj heq'
          exact absurd ((hf value.value hb).symm.trans hd) (by decide)
        intro hs value hv
        rcases hs hop past rfl hw with hc | hnone
        · rw [hr] at hc
          cases hc
        · rw [refererLines_eq_nil _ _ |>.mpr hnone] at hv
          cases hv

lemma getAll_applyDefaultHeaders {defaults headers : MarkedHeaderMap}
    {acceptEncoding : Option HeaderValue} {skip : Bool} {name : HeaderName}
    (hn : name ≠ .acceptEncoding) (hd : defaults.getAll name = [])
    (hh : headers.getAll name = []) :
    (applyDefaultHeaders defaults acceptEncoding skip headers).getAll name = [] := by
  have hf : (defaults.lines.foldl applyDefaultHeader headers).getAll name = [] := by
    have hl : ∀ line ∈ defaults.lines, line.1 ≠ name := by
      rintro ⟨other, value⟩ hm rfl
      have hv : value ∈ defaults.getAll other := mem_getAll.mpr hm
      rw [hd] at hv
      cases hv
    generalize defaults.lines = lines at hl
    induction lines generalizing headers with
    | nil => exact hh
    | cons line lines ih =>
      refine ih ?_ fun other ho => hl other (mem_cons_of_mem _ ho)
      have hne := hl line mem_cons_self
      unfold applyDefaultHeader
      split
      · exact hh
      · rw [getAll_insert_of_ne hne.symm, hh]
  unfold applyDefaultHeaders
  simp only
  split
  · split
    · exact hf
    · rw [getAll_insert_of_ne hn, hf]
  · exact hf

/-- With automatic `Referer` lines, every request of a chain carries at most that of the URL before
it exactly if no hop that writes none comes after one whose line is still there. -/
theorem referer_fresh_iff [UrlParser] {settings : Settings} {request : Request} {start : Start}
    {events : List Event} {s : State} (henabled : settings.redirect.referer = true)
    (hcaller : request.headers.getAll .referer = [])
    (hdefault : settings.defaultHeaders.getAll .referer = [])
    (hrun : run settings request start events = some s) :
    (∀ r ∈ s.sent, RefererFresh r) ↔ ∀ r ∈ s.sent, NothingStale settings.redirect r := by
  have hi : RefererLeft settings.redirect ⟨(initial settings request start).uri, [], [], false⟩
      (initial settings request start).headers :=
    getAll_applyDefaultHeaders (by decide) hdefault hcaller
  have hl : ∀ r ∈ s.sent, RefererLeft settings.redirect r.place r.headers :=
    fun r hr => good_of_sent (carried_refererLeft settings) hi hrun hr
  exact forall₂_congr fun r hr => refererFresh_iff henabled (hl r hr)

def plainUri (scheme host path : Bytes) : Uri where
  scheme := some scheme
  authority := some ⟨host, host, none⟩
  path := path
  pathAndQuery := some ⟨path⟩

def bareSend : Event := .send ⟨[], 0, [], ⟨0, 0⟩⟩

def redirectTo (location : String) (h : (ascii location).all isValueByte = true) : Event :=
  .respond { status := 302, headers := ⟨[(.location, ⟨ascii location, h⟩)]⟩, now := 0 }

def leaveOrigin : Event := redirectTo "https://b.test/" (by decide)

def refererSettings : Settings := { redirect := { referer := true } }

def secureRequest : Request where
  method := .get
  uri := plainUri (ascii "https") (ascii "a.test") (ascii "/1")
  headers := ⟨[]⟩

def secureChain : List Event :=
  [bareSend, redirectTo "https://a.test/2" (by decide), bareSend,
    leaveOrigin, bareSend]

def leavingChain : List Event :=
  [bareSend, redirectTo "https://a.test/2" (by decide), bareSend,
    redirectTo "http://b.test/" (by decide), bareSend]

def sentReferers (events : List Event) : Option (List (Bytes × List Bytes)) :=
  (@run .plain refererSettings secureRequest {} events).map fun s =>
    s.sent.map fun r => (r.uri.display, (r.headers.getAll .referer).map fun v => v.value.bytes)

theorem referer_fresh_iff_secure :
    ∃ s, @run .plain refererSettings secureRequest {} secureChain = some s ∧
      s.sent.length = 3 ∧
      ((∀ r ∈ s.sent, RefererFresh r) ↔
        ∀ r ∈ s.sent, NothingStale refererSettings.redirect r) := by
  have hsen : sentReferers secureChain =
      some [(ascii "https://a.test/1", []), (ascii "https://a.test/2", [ascii "https://a.test/1"]),
        (ascii "https://b.test/", [ascii "https://a.test"])] := by decide
  obtain ⟨s, hs, hm⟩ := map_eq_some_iff.mp hsen
  refine ⟨s, hs, ?_, @referer_fresh_iff .plain _ _ _ _ s rfl rfl rfl hs⟩
  have hl := congrArg List.length hm
  simpa using hl

/-- The last request goes from HTTPS to plain HTTP and carries the `Referer` of an earlier hop. -/
theorem referer_leaks_on_downgrade :
    sentReferers leavingChain =
        some [(ascii "https://a.test/1", []),
          (ascii "https://a.test/2", [ascii "https://a.test/1"]),
          (ascii "http://b.test/", [ascii "https://a.test/1"])] ∧
      ∃ s, @run .plain refererSettings secureRequest {} leavingChain = some s ∧
        ¬∀ r ∈ s.sent, RefererFresh r := by
  refine ⟨by decide, ?_⟩
  have hd : (@run .plain refererSettings secureRequest {} leavingChain).map
      (fun s => s.sent.any fun r => (r.headers.containsKey .referer) &&
        (r.past.head?.any fun hop => isDowngrade hop.uri r.uri)) = some true := by decide
  obtain ⟨s, hs, ha⟩ := map_eq_some_iff.mp hd
  refine ⟨s, hs, fun hf => ?_⟩
  obtain ⟨r, hr, hl⟩ := any_eq_true.mp ha
  cases hv : r.headers.getAll .referer with
  | nil => simp [containsKey, hv] at hl
  | cons value values =>
    obtain ⟨hop, past, hp, -, hdow⟩ := hf r hr value (hv ▸ mem_cons_self)
    simp [hp, hdow] at hl

end Aioduct.Client
