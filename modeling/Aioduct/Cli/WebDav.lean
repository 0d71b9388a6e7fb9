import Aioduct.Http.Uri
import Aioduct.Wire.Url
import Aioduct.Wire.Utf8

/-!
# Recursive downloads

`download/webdav.rs` and `expand_webdav_uris` of `download/mod.rs`: collections are listed one after
another. There is one reply for each `PROPFIND`, with the URLs that it was redirected to.
-/

namespace Aioduct.Cli

open Wire Http List Url

structure RemoteFile where
  url : Bytes
  relativePath : Bytes
  size : Option Nat

/-- A URI to be downloaded, as bytes or as characters. -/
structure ExpandedUri (τ : Type) where
  url : τ
  knownSize : Option Nat := none
  relativePath : Option τ := none

structure DavEntry where
  href : Bytes
  isCollection : Bool
  contentLength : Option Nat

namespace WebDav

def isAbsolute (href : Bytes) : Bool :=
  (href.dropPrefix? (ascii "http://")).isSome || (href.dropPrefix? (ascii "https://")).isSome

def resolveHref (baseUrl href : Bytes) : Bytes :=
  if isAbsolute href then href
  else
    match splitOnce Url.separator baseUrl with
    | some (scheme, rest) =>
      match splitOnce [byte '/'] rest with
      | some (host, _) => scheme ++ Url.separator ++ host ++ href
      | none => baseUrl ++ href
    | none => baseUrl ++ href

def isSelfReference (requestUrl href : Bytes) : Bool :=
  requestUrl.rdropWhile (· == byte '/') == href.rdropWhile (· == byte '/')

/-! ### Answers -/

/-- What the XML reader gives; an element without content counts as a start. -/
inductive Event where
  | start (name : Bytes)
  | stop (name : Bytes)
  | text (content : Bytes)
  | other

def localName (name : Bytes) : Bytes :=
  match splitOnce [byte ':'] name with
  | some (_, rest) => rest
  | none => name

/-- The variables of `parse_multistatus`. -/
structure Multistatus where
  inResponse : Bool := false
  inHref : Bool := false
  inResourcetype : Bool := false
  inContentlength : Bool := false
  currentHref : Bytes := []
  currentIsCollection : Bool := false
  currentLength : Option Nat := none
  entries : List DavEntry := []

namespace Multistatus

variable (self : Multistatus)

def readStart (name : Bytes) : Multistatus :=
  if name = ascii "response" then
    { self with
      inResponse := true
      currentHref := []
      currentIsCollection := false
      currentLength := none }
  else if name = ascii "href" ∧ self.inResponse = true then { self with inHref := true }
  else if name = ascii "resourcetype" ∧ self.inResponse = true then
    { self with inResourcetype := true }
  else if name = ascii "collection" ∧ self.inResourcetype = true then
    { self with currentIsCollection := true }
  else if name = ascii "getcontentlength" ∧ self.inResponse = true then
    { self with inContentlength := true }
  else self

def readStop (resolve : Bytes → Bytes) (name : Bytes) : Multistatus :=
  if name = ascii "response" then
    if self.inResponse && !self.currentHref.isEmpty then
      { self with
        inResponse := false
        entries := self.entries ++
          [⟨resolve self.currentHref, self.currentIsCollection, self.currentLength⟩] }
    else { self with inResponse := false }
  else if name = ascii "href" then { self with inHref := false }
  else if name = ascii "resourcetype" then { self with inResourcetype := false }
  else if name = ascii "getcontentlength" then { self with inContentlength := false }
  else self

def readText (content : Bytes) : Multistatus :=
  if self.inHref then { self with currentHref := content }
  else if self.inContentlength then
    { self with currentLength := parseUnsigned 64 (Utf8.trimText content) }
  else self

def read (resolve : Bytes → Bytes) (self : Multistatus) : Event → Multistatus
  | .start name => self.readStart (localName name)
  | .stop name => self.readStop resolve (localName name)
  | .text content => self.readText content
  | .other => self

end Multistatus

variable (resolve : Bytes → Bytes) (events : List Event)

/-- The entries of an answer, whose links are read by `resolve`. The events end where the reader
stops or fails. -/
def parseEntries : List DavEntry :=
  (events.foldl (Multistatus.read resolve) {}).entries

def parseMultistatus (baseUrl : Bytes) : List DavEntry :=
  parseEntries (resolveHref baseUrl) events

def hrefs : List Bytes := (parseEntries id events).map DavEntry.href

/-! ### Enumeration -/

/-- What comes back for a request: the URLs of redirects, and the status and the answer unless the
request fails. -/
structure Reply where
  redirects : List Bytes := []
  response : Option (StatusCode × List Event)

/-- The requests that are made for a URL; one without an origin is refused. -/
def sent (url : Bytes) (redirects : List Bytes) : List Bytes :=
  if (Url.origin url).isSome then url :: redirects else []

def propfind (url : Bytes) (reply : Reply) : Option (List DavEntry) :=
  if (Url.origin url).isSome then
    match reply.response with
    | none => none
    | some (status, events) =>
      if status != 207 && !status.isSuccess then none else some (parseMultistatus events url)
  else none

structure Walk where
  /-- The collections to list, the last one first. -/
  queue : List (Bytes × Nat)
  results : List RemoteFile := []
  requests : List Bytes := []

namespace Walk

def tooDeep (maxDepth : Option Nat) (item : Bytes × Nat) : Bool :=
  match maxDepth with
  | some max => 0 < max && max < item.2
  | none => false

def relativePath (baseUrl href : Bytes) : Bytes :=
  ((href.dropPrefix? baseUrl).getD href).dropWhile (· == byte '/')

def visit (baseUrl url : Bytes) (depth : Nat) (self : Walk) (entry : DavEntry) : Walk :=
  if entry.isCollection then
    if entry.href != url && !isSelfReference url entry.href then
      { self with queue := (entry.href, depth + 1) :: self.queue }
    else self
  else
    { self with
      results := self.results ++
        [⟨entry.href, relativePath baseUrl entry.href, entry.contentLength⟩] }

end Walk

inductive Ending where
  | waiting
  | finished
  | failed
  deriving DecidableEq

/-- `enumerate`, as far as the replies go. -/
def walk (baseUrl : Bytes) (maxDepth : Option Nat) : List Reply → Walk → Ending × Walk
  | [], self =>
    match self.queue.dropWhile (Walk.tooDeep maxDepth) with
    | [] => (.finished, self)
    | _ :: _ => (.waiting, self)
  | reply :: replies, self =>
    match self.queue.dropWhile (Walk.tooDeep maxDepth) with
    | [] => (.finished, self)
    | (url, depth) :: queue =>
      let self := { self with queue, requests := self.requests ++ sent url reply.redirects }
      match propfind url reply with
      | none => (.failed, self)
      | some entries =>
        walk baseUrl maxDepth replies (entries.foldl (Walk.visit baseUrl url depth) self)

def enumerate (baseUrl : Bytes) (maxDepth : Option Nat) (replies : List Reply) : Ending × Walk :=
  walk baseUrl maxDepth replies { queue := [(baseUrl, 0)] }

/-- The URIs that one URI of the command line stands for; depth zero is no limit. -/
def expandUri (uri : Bytes) (maxDepth : Nat) (replies : List Reply) :
    List Bytes × List (ExpandedUri Bytes) :=
  if uri.getLast? = some (byte '/') then
    let (ending, walk) := enumerate uri (if maxDepth = 0 then none else some maxDepth) replies
    (walk.requests, match ending with
      | .waiting => []
      | .finished => walk.results.map fun file => ⟨file.url, file.size, some file.relativePath⟩
      | .failed => [{ url := uri }])
  else ([], [{ url := uri }])

/-- A request of a download: the place of the URI, and the URLs of redirects. -/
structure Transfer where
  place : Nat
  redirects : List Bytes := []

/-- All requests for a URI of the command line, with the downloads after the enumeration. -/
def requests (uri : Bytes) (maxDepth : Nat) (replies : List Reply) (transfers : List Transfer) :
    List Bytes :=
  let (walked, uris) := expandUri uri maxDepth replies
  walked ++ transfers.flatMap fun transfer =>
    match uris[transfer.place]? with
    | some uri => sent uri.url transfer.redirects
    | none => []

def Rooted (baseUrl href : Bytes) : Prop :=
  (isAbsolute href = true ∧ Url.origin href = Url.origin baseUrl) ∨
    (isAbsolute href = false ∧ Stops (!Url.endsAuthority ·) href)

variable {url baseUrl href uri : Bytes} {entry : DavEntry} {entries : List DavEntry}
  {replies : List Reply}

lemma origin_resolveHref_of_stops (hu : (origin url).isSome)
    (ha : isAbsolute href = false) (h : Stops (!endsAuthority ·) href) :
    origin (resolveHref url href) = origin url := by
  obtain ⟨scheme, rest, hs⟩ := exists_splitOnce_of_origin hu
  unfold resolveHref
  rw [ha, hs, origin_of_splitOnce hs]
  simp only [Bool.false_eq_true, if_false]
  cases hsla : splitOnce [byte '/'] rest with
  | none =>
    rw [origin_of_splitOnce (splitOnce_append_of_some hs href), authority_append h]
  | some parts =>
    -- the authority ends at the slash at the latest, so that what is kept before it is enough
    have hr : rest = parts.1 ++ ([byte '/'] ++ parts.2) := by
      rw [← append_assoc]
      exact splitOnce_eq_some hsla
    have hp : Stops (!endsAuthority ·) ([byte '/'] ++ parts.2) := by
      intro b hb
      cases hb
      decide
    simp only
    rw [append_assoc, origin_of_splitOnce (splitOnce_separator_front hs _),
      authority_append h, hr, authority_append hp]

lemma origin_resolveHref (hsome : (origin url).isSome)
    (hu : origin url = origin baseUrl) (h : Rooted baseUrl href) :
    origin (resolveHref url href) = origin baseUrl := by
  rcases h with ⟨ha, h⟩ | ⟨ha, h⟩
  · rw [resolveHref, if_pos ha, h]
  · rw [origin_resolveHref_of_stops hsome ha h, hu]

namespace Multistatus

def mapEntries (f : DavEntry → DavEntry) (self : Multistatus) : Multistatus :=
  { self with entries := self.entries.map f }

def resolved (entry : DavEntry) : DavEntry := { entry with href := resolve entry.href }

lemma read_mapEntries (self : Multistatus) (event : Event) :
    read resolve (self.mapEntries (resolved resolve)) event =
      (read id self event).mapEntries (resolved resolve) := by
  cases event with
  | start name =>
    simp only [read, readStart, apply_ite (mapEntries (resolved resolve))]
    rfl
  | stop name =>
    simp only [read, readStop, apply_ite (mapEntries (resolved resolve))]
    simp only [mapEntries, map_append]
    rfl
  | text content =>
    simp only [read, readText, apply_ite (mapEntries (resolved resolve))]
    rfl
  | other => rfl

lemma foldl_read_mapEntries (events : List Event) (self : Multistatus) :
    events.foldl (read resolve) (self.mapEntries (resolved resolve)) =
      (events.foldl (read id) self).mapEntries (resolved resolve) := by
  induction events generalizing self with
  | nil => rfl
  | cons event events ih => rw [foldl_cons, foldl_cons, read_mapEntries, ih]

end Multistatus

lemma parseEntries_eq :
    parseEntries resolve events = (parseEntries id events).map (Multistatus.resolved resolve) :=
  congrArg Multistatus.entries (Multistatus.foldl_read_mapEntries resolve events {})

lemma exists_href_of_mem {events : List Event} (h : entry ∈ parseMultistatus events url) :
    ∃ href ∈ hrefs events, entry.href = resolveHref url href := by
  rw [parseMultistatus, parseEntries_eq] at h
  obtain ⟨raw, hr, rfl⟩ := mem_map.mp h
  exact ⟨raw.href, mem_map_of_mem hr, rfl⟩

/-! ### Runs that stay -/

structure Reply.Stays (baseUrl : Bytes) (reply : Reply) : Prop where
  redirects : ∀ url ∈ reply.redirects, Url.origin url = Url.origin baseUrl
  links : ∀ status events, reply.response = some (status, events) →
    ∀ href ∈ hrefs events, Rooted baseUrl href

/-- All URLs of an enumeration are of the origin it began at. -/
structure Walk.OnOrigin (baseUrl : Bytes) (state : Walk) : Prop where
  queue : ∀ item ∈ state.queue, Url.origin item.1 = Url.origin baseUrl
  results : ∀ file ∈ state.results, Url.origin file.url = Url.origin baseUrl
  requests : ∀ url ∈ state.requests, Url.origin url = Url.origin baseUrl

lemma forall_mem_sent {P : Bytes → Prop} {redirects : List Bytes} (hu : P url)
    (h : ∀ next ∈ redirects, P next) : ∀ next ∈ sent url redirects, P next := by
  by_cases hsome : (origin url).isSome
  · rw [sent, if_pos hsome]
    exact forall_mem_cons.mpr ⟨hu, h⟩
  · rw [sent, if_neg hsome]
    exact forall_mem_nil _

namespace Walk.OnOrigin

variable {baseUrl url : Bytes} {self : Walk}

lemma visit (h : OnOrigin baseUrl self) (depth : Nat)
    (he : origin entry.href = origin baseUrl) :
    OnOrigin baseUrl (Walk.visit baseUrl url depth self entry) := by
  unfold Walk.visit
  split
  · split
    · exact ⟨forall_mem_cons.mpr ⟨he, h.queue⟩, h.results, h.requests⟩
    · exact h
  refine ⟨h.queue, fun file hf => ?_, h.requests⟩
  rcases mem_append.mp hf with hm | hm
  · exact h.results file hm
  · rw [mem_singleton.mp hm]
    exact he

lemma foldl_visit (depth : Nat)
    (he : ∀ entry ∈ entries, origin entry.href = origin baseUrl)
    (h : OnOrigin baseUrl self) :
    OnOrigin baseUrl (entries.foldl (Walk.visit baseUrl url depth) self) := by
  induction entries generalizing self with
  | nil => exact h
  | cons entry entries ih =>
    rw [forall_mem_cons] at he
    exact ih he.2 (h.visit depth he.1)

end Walk.OnOrigin

lemma origin_of_propfind {reply : Reply}
    (hu : origin url = origin baseUrl) (hr : reply.Stays baseUrl)
    (h : propfind url reply = some entries) :
    ∀ entry ∈ entries, origin entry.href = origin baseUrl := by
  unfold propfind at h
  split at h
  · next hsome =>
    split at h
    · cases h
    next status events hres =>
    split at h
    · cases h
    intro entry he
    cases h
    obtain ⟨href, hh, heq⟩ := exists_href_of_mem he
    rw [heq]
    exact origin_resolveHref hsome hu (hr.links status events hres href hh)
  · cases h

lemma walk_onOrigin (maxDepth : Option Nat)
    (hr : ∀ reply ∈ replies, reply.Stays baseUrl) {self : Walk} (h : self.OnOrigin baseUrl) :
    (walk baseUrl maxDepth replies self).2.OnOrigin baseUrl := by
  induction replies generalizing self with
  | nil =>
    unfold walk
    split
    · exact h
    · exact h
  | cons reply replies ih =>
    rw [forall_mem_cons] at hr
    unfold walk
    split
    · exact h
    next url depth queue hq =>
    have hi : ∀ item ∈ (url, depth) :: queue, origin item.1 = origin baseUrl := by
      intro item hite
      rw [← hq] at hite
      exact h.queue item ((dropWhile_sublist _).subset hite)
    rw [forall_mem_cons] at hi
    have hs := forall_mem_sent hi.1 hr.1.redirects
    have hnext : Walk.OnOrigin baseUrl
        { self with queue, requests := self.requests ++ sent url reply.redirects } :=
      ⟨hi.2, h.results, forall_mem_append.mpr ⟨h.requests, hs⟩⟩
    split
    · exact hnext
    · next entries he =>
      exact ih hr.2 (hnext.foldl_visit depth (origin_of_propfind hi.1 hr.1 he))

lemma expandUri_onOrigin (maxDepth : Nat) (h : ∀ reply ∈ replies, reply.Stays uri) :
    (∀ url ∈ (expandUri uri maxDepth replies).1, origin url = origin uri) ∧
      ∀ expanded ∈ (expandUri uri maxDepth replies).2,
        origin expanded.url = origin uri := by
  have hi : ∀ expanded ∈ [({ url := uri } : ExpandedUri Bytes)],
      origin expanded.url = origin uri := by rw [forall_mem_singleton]
  unfold expandUri
  split
  · have hw : Walk.OnOrigin uri
        (enumerate uri (if maxDepth = 0 then none else some maxDepth) replies).2 := by
      apply walk_onOrigin _ h
      refine ⟨?_, forall_mem_nil _, forall_mem_nil _⟩
      rw [forall_mem_singleton]
    refine ⟨hw.requests, ?_⟩
    simp only
    split
    · exact forall_mem_nil _
    · intro expanded he
      obtain ⟨file, hf, rfl⟩ := mem_map.mp he
      exact hw.results file hf
    · exact hi
  · exact ⟨forall_mem_nil _, hi⟩

/-- A link that begins with a slash, a question mark or a number sign is read at the origin of its
collection; and if the other links and the redirects keep to the origin of the URI, so does every
request of a run. -/
theorem requests_on_origin (uri : Bytes) (maxDepth : Nat) (replies : List Reply)
    (transfers : List Transfer) (hreplies : ∀ reply ∈ replies, reply.Stays uri)
    (htransfers : ∀ transfer ∈ transfers, ∀ url ∈ transfer.redirects,
      origin url = origin uri) :
    (∀ collection href, (origin collection).isSome → isAbsolute href = false →
        Stops (!endsAuthority ·) href →
        origin (resolveHref collection href) = origin collection) ∧
      ∀ url ∈ requests uri maxDepth replies transfers, origin url = origin uri := by
  obtain ⟨hw, hu⟩ := expandUri_onOrigin maxDepth hreplies
  refine ⟨fun _ _ hsome ha hs =>
    origin_resolveHref_of_stops hsome ha hs, ?_⟩
  unfold requests
  rw [forall_mem_append]
  refine ⟨hw, fun url hurl => ?_⟩
  obtain ⟨transfer, ht, hm⟩ := mem_flatMap.mp hurl
  split at hm
  · next expanded hg =>
    exact forall_mem_sent (hu expanded (mem_of_getElem? hg)) (htransfers transfer ht) url hm
  · cases hm

def filesUri : Bytes := ascii "http://files.example/dav/"

def fileReply (href : Bytes) : Reply where
  response := some (207, [.start (ascii "D:response"), .start (ascii "D:href"), .text href,
    .stop (ascii "D:href"), .stop (ascii "D:response")])

theorem requests_on_origin_files :
    ascii "http://files.example/dav/a" ∈
        requests filesUri 0 [fileReply (ascii "/dav/a")] [⟨0, []⟩] ∧
      origin (ascii "http://files.example/dav/a") = origin filesUri := by
  refine ⟨by decide, (requests_on_origin filesUri 0 [fileReply (ascii "/dav/a")] [⟨0, []⟩]
    ?_ ?_).2 _ (by decide)⟩
  · rw [forall_mem_singleton]
    refine ⟨forall_mem_nil _, fun status events hr => ?_⟩
    cases hr
    have hl : hrefs [.start (ascii "D:response"), .start (ascii "D:href"),
        .text (ascii "/dav/a"), .stop (ascii "D:href"), .stop (ascii "D:response")] =
        [ascii "/dav/a"] := by decide
    rw [hl, forall_mem_singleton]
    exact .inr ⟨by decide, by decide⟩
  · rw [forall_mem_singleton]
    exact forall_mem_nil _

/-- The text of the link goes on with the host, and another URL is requested as it is. -/
theorem links_leave_origin :
    (isAbsolute (ascii ".evil.test/a") = false ∧
      origin (resolveHref filesUri (ascii ".evil.test/a")) ≠ origin filesUri) ∧
    (∃ url ∈ requests filesUri 0 [fileReply (ascii ".evil.test/a")] [⟨0, []⟩],
      origin url ≠ origin filesUri) ∧
    ∃ url ∈ requests filesUri 0 [fileReply (ascii "https://evil.test/a")] [⟨0, []⟩],
      origin url ≠ origin filesUri := by decide

/-! ### Collections that link to one another -/

section Listing

variable (baseUrl url : Bytes) (depth : Nat)

def followed (entries : List DavEntry) : List Bytes :=
  (entries.filter fun entry =>
    entry.isCollection && (entry.href != url && !isSelfReference url entry.href)).map DavEntry.href

def remoteFiles (entries : List DavEntry) : List RemoteFile :=
  (entries.filter (!·.isCollection)).map fun entry =>
    ⟨entry.href, Walk.relativePath baseUrl entry.href, entry.contentLength⟩

lemma foldl_visit (entries : List DavEntry) (self : Walk) :
    let after := entries.foldl (Walk.visit baseUrl url depth) self
    after.queue.map Prod.fst = (followed url entries).reverse ++ self.queue.map Prod.fst ∧
      after.results = self.results ++ remoteFiles baseUrl entries := by
  induction entries generalizing self with
  | nil => simp [followed, remoteFiles]
  | cons entry entries ih =>
    obtain ⟨hq, hr⟩ := ih (Walk.visit baseUrl url depth self entry)
    simp only [foldl_cons]
    rw [hq, hr]
    simp only [followed, remoteFiles, Walk.visit, filter_cons]
    cases entry.isCollection with
    | false => simp
    | true => cases entry.href != url && !isSelfReference url entry.href <;> simp

lemma dropWhile_tooDeep_none (queue : List (Bytes × Nat)) :
    queue.dropWhile (Walk.tooDeep none) = queue := by
  cases queue <;> rfl

end Listing

/-- Servers with finitely many collections, each of which answers. -/
structure Site where
  baseUrl : Bytes
  reply : Bytes → Reply
  urls : List Bytes
  base_mem : baseUrl ∈ urls
  answers : ∀ url ∈ urls, (propfind url (reply url)).isSome
  closed : ∀ url ∈ urls, ∀ next ∈ followed url ((propfind url (reply url)).getD []), next ∈ urls

namespace Site

variable (site : Site)

def listing (url : Bytes) : List DavEntry := (propfind url (site.reply url)).getD []

def links (url : Bytes) : List Bytes := followed url (site.listing url)

def files (url : Bytes) : List RemoteFile := remoteFiles site.baseUrl (site.listing url)

def next (walk : Walk) (url : Bytes) (depth : Nat) (queue : List (Bytes × Nat)) : Walk :=
  (site.listing url).foldl (Walk.visit site.baseUrl url depth)
    { walk with queue, requests := walk.requests ++ sent url (site.reply url).redirects }

/-- The collections that are listed in the first rounds of an enumeration. -/
def listedFrom (site : Site) : Nat → Walk → List Bytes
  | 0, _ => []
  | n + 1, walk =>
    match walk.queue with
    | [] => []
    | (url, depth) :: queue => url :: site.listedFrom n (site.next walk url depth queue)

def listed (n : Nat) : List Bytes := site.listedFrom n { queue := [(site.baseUrl, 0)] }

/-- An enumeration without a limit of depth, as far as the first rounds go. -/
def enumerated (n : Nat) : Ending × Walk :=
  enumerate site.baseUrl none ((site.listed n).map site.reply)

inductive Reached : Bytes → Prop where
  | base : Reached site.baseUrl
  | link {url next : Bytes} (h : Reached url) (hnext : next ∈ site.links url) : Reached next

/-- No link leads back to the base, and no two links lead to the same collection. -/
def LinkedOnce : Prop :=
  ∀ url, site.Reached url → site.baseUrl ∉ site.links url ∧ (site.links url).Nodup ∧
    ∀ other, site.Reached other → url ≠ other → (site.links url).Disjoint (site.links other)

structure Progress (done : List Bytes) (walk : Walk) : Prop where
  perm : (done ++ walk.queue.map Prod.fst).Perm (site.baseUrl :: done.flatMap site.links)
  reached : ∀ url ∈ done ++ walk.queue.map Prod.fst, url ∈ site.urls ∧ site.Reached url
  results : walk.results = done.flatMap site.files
  nodup : site.LinkedOnce → done.Nodup

variable {site : Site} {done : List Bytes} {walk : Walk}

lemma Progress.nodup_all (h : site.Progress done walk) (hl : site.LinkedOnce) :
    (done ++ walk.queue.map Prod.fst).Nodup := by
  have hd : ∀ {url}, url ∈ done → site.Reached url := fun hu =>
    (h.reached _ (mem_append_left _ hu)).2
  rw [h.perm.nodup_iff, nodup_cons, nodup_flatMap]
  refine ⟨fun hb => ?_, fun url hu => (hl url (hd hu)).2.1, ?_⟩
  · obtain ⟨url, hu, hlin⟩ := mem_flatMap.mp hb
    exact (hl url (hd hu)).1 hlin
  · refine (h.nodup hl).imp_of_mem fun hu ho hne => ?_
    exact (hl _ (hd hu)).2.2 _ (hd ho) hne

lemma Progress.next {url : Bytes} {depth : Nat} {queue : List (Bytes × Nat)}
    (h : site.Progress done walk) (hq : walk.queue = (url, depth) :: queue) :
    site.Progress (done ++ [url]) (site.next walk url depth queue) := by
  obtain ⟨hnext, hr⟩ := foldl_visit site.baseUrl url depth (site.listing url)
    { walk with queue, requests := walk.requests ++ sent url (site.reply url).redirects }
  have hs : done ++ walk.queue.map Prod.fst = done ++ [url] ++ queue.map Prod.fst := by
    simp [hq]
  have hu := h.reached url (by simp [hq])
  refine ⟨?_, fun other ho => ?_, ?_, fun hlin => ?_⟩
  · have hp := h.perm
    rw [hs] at hp
    rw [Site.next, hnext, flatMap_append, flatMap_singleton, ← cons_append]
    refine List.Perm.trans ?_ (hp.append_right _)
    rw [append_assoc _ (queue.map Prod.fst)]
    exact (perm_append_comm.trans ((reverse_perm _).append_left _)).append_left _
  · rw [Site.next, hnext, ← append_assoc, mem_append, mem_append, mem_reverse] at ho
    rcases ho with (ho | hl) | ho
    · exact h.reached other (by rw [hs]; exact mem_append_left _ ho)
    · exact ⟨site.closed url hu.1 other hl, hu.2.link hl⟩
    · exact h.reached other (by rw [hs]; exact mem_append_right _ ho)
  · rw [Site.next, hr, h.results]
    simp [files]
  · have hall := h.nodup_all hlin
    rw [hs] at hall
    exact hall.of_append_left

/-- The rounds of a walk, and where they lead. -/
lemma Progress.walk_listed (n : Nat) (h : site.Progress done walk) :
    ∃ after, site.Progress (done ++ site.listedFrom n walk) after ∧
      WebDav.walk site.baseUrl none ((site.listedFrom n walk).map site.reply) walk =
        (if after.queue = [] then .finished else .waiting, after) ∧
      (after.queue ≠ [] → (site.listedFrom n walk).length = n) := by
  induction n generalizing done walk with
  | zero =>
    refine ⟨walk, by simpa [listedFrom] using h, ?_, fun _ => rfl⟩
    simp only [listedFrom, map_nil, WebDav.walk, dropWhile_tooDeep_none]
    cases walk.queue <;> rfl
  | succ n ih =>
    cases hq : walk.queue with
    | nil =>
      refine ⟨walk, by simpa [listedFrom, hq] using h, ?_, absurd hq⟩
      simp [listedFrom, WebDav.walk, hq]
    | cons item queue =>
      obtain ⟨url, depth⟩ := item
      obtain ⟨after, ha, hw, hlen⟩ := ih (h.next hq)
      have hans : propfind url (site.reply url) = some (site.listing url) := by
        have hsome := site.answers url (h.reached url (by simp [hq])).1
        obtain ⟨entries, he⟩ := Option.isSome_iff_exists.mp hsome
        rw [listing, he, Option.getD_some]
      refine ⟨after, ?_, ?_, ?_⟩
      · simpa [listedFrom, hq] using ha
      · simp only [listedFrom, hq, map_cons, WebDav.walk, dropWhile_tooDeep_none, hans]
        exact hw
      · simpa [listedFrom, hq] using hlen

lemma progress_start (site : Site) : site.Progress [] { queue := [(site.baseUrl, 0)] } := by
  refine ⟨by simp, ?_, rfl, fun _ => nodup_nil⟩
  simpa using ⟨site.base_mem, .base⟩

lemma Progress.linkedOnce (h : site.Progress done walk) (he : walk.queue = [])
    (hnodup : done.Nodup) : site.LinkedOnce := by
  have hp := h.perm
  rw [he, map_nil, append_nil] at hp
  have hall : ∀ {url}, site.Reached url → url ∈ done := by
    intro url hu
    induction hu with
    | base => exact hp.mem_iff.mpr mem_cons_self
    | link _ hl ih =>
      exact hp.mem_iff.mpr (mem_cons_of_mem _ (mem_flatMap.mpr ⟨_, ih, hl⟩))
  rw [hp.nodup_iff, nodup_cons, nodup_flatMap] at hnodup
  obtain ⟨hb, hlin, hd⟩ := hnodup
  refine fun url hu => ⟨fun hl => ?_, hlin url (hall hu), fun other ho hne => ?_⟩
  · exact hb (mem_flatMap.mpr ⟨url, hall hu, hl⟩)
  · have : Std.Symm (Function.onFun List.Disjoint site.links) :=
      ⟨fun _ _ h => List.Disjoint.symm h⟩
    exact hd.forall (hall hu) (hall ho) hne

/-- An enumeration comes to its end, with one request for each collection and the files of each
collection once, exactly if no link leads back to the base and no two lead to the same
collection. -/
theorem enumerates_once_iff (site : Site) :
    (∃ n, (site.enumerated n).1 = .finished ∧ (site.listed n).Nodup ∧
        (site.enumerated n).2.results = (site.listed n).flatMap site.files) ↔
      site.LinkedOnce := by
  constructor
  · rintro ⟨n, hf, hnodup, -⟩
    obtain ⟨after, ha, hw, -⟩ := (progress_start site).walk_listed n
    refine ha.linkedOnce ?_ hnodup
    by_contra hq
    rw [enumerated, enumerate, listed, hw, if_neg hq] at hf
    cases hf
  intro hl
  obtain ⟨after, ha, hw, hlen⟩ :=
    (progress_start site).walk_listed (site.urls.length + 1)
  have hnodup := ha.nodup hl
  rw [nil_append] at ha hnodup
  have he : after.queue = [] := by
    by_contra hq
    have hs : site.listed (site.urls.length + 1) ⊆ site.urls := fun url hu =>
      (ha.reached url (mem_append_left _ hu)).1
    have hle := (subperm_of_subset hnodup hs).length_le
    have := hlen hq
    omega
  refine ⟨site.urls.length + 1, ?_, hnodup, ?_⟩ <;> rw [enumerated, enumerate, listed, hw]
  · rw [if_pos he]
  · exact ha.results

def collectionReply (href : Bytes) : Reply where
  response := some (207, [.start (ascii "D:response"), .start (ascii "D:href"), .text href,
    .stop (ascii "D:href"), .start (ascii "D:resourcetype"), .start (ascii "D:collection"),
    .stop (ascii "D:resourcetype"), .stop (ascii "D:response")])

def mutualSite : Site where
  baseUrl := filesUri
  reply url := collectionReply (if url = filesUri then ascii "/a/" else ascii "/dav/")
  urls := [filesUri, ascii "http://files.example/a/"]
  base_mem := List.mem_cons_self
  answers := by decide
  closed := by decide

theorem mutual_links_listed_again :
    mutualSite.listed 3 = [filesUri, ascii "http://files.example/a/", filesUri] ∧
      (mutualSite.enumerated 3).1 = .waiting := by decide

end Site

end WebDav

end Aioduct.Cli
