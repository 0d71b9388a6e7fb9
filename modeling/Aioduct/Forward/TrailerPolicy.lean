import Aioduct.FieldPolicy

/-!
# Trailer policy

`forward/trailer_policy.rs`: what is left of a `Trailer` declaration, and which trailers pass. The
shared atomic cells of the source are plain fields here.
-/

namespace Aioduct.Forward

open Wire Http FieldPolicy MultiMap List HeaderName

inductive TrailerMode where
  | preserve
  | declaredOnly
  | disallow
  | defer
  | unsupportedH3
  deriving DecidableEq

structure TrailerPolicy where
  connectionNames : List HeaderName
  mode : TrailerMode := .preserve
  declaredNames : List HeaderName := []
  direction : FieldDirection := .request
  responseStatus : Option UInt16 := none
  nativeSource : Option FieldProtocol := none
  strictProtocol : Option FieldProtocol := none

def listedNames (values : List HeaderValue) : List HeaderName :=
  (values.flatMap fun value => value.bytes.splitOn (byte ',')).filterMap fun token =>
    HeaderName.fromBytes (trim isOws token)

variable (headers : HeaderMap)

def connectionOptions : List HeaderName := listedNames (headers.getAll .connection)

namespace TrailerPolicy

def capture : TrailerPolicy where
  connectionNames := connectionOptions headers

def setModeForSource (policy : TrailerPolicy) (protocol : FieldProtocol) : TrailerPolicy :=
  if protocol = .http3 then { policy with mode := .unsupportedH3 } else policy

variable (version : Version) (direction : FieldDirection)

def captureWithDirection (responseStatus : Option UInt16) : TrailerPolicy :=
  let policy := { capture headers with direction := direction, responseStatus := responseStatus }
  match FieldProtocol.fromVersion version with
  | some protocol =>
    { policy with nativeSource := some protocol, strictProtocol := some protocol }
      |>.setModeForSource protocol
  | none => policy

def captureRequestForVersion : TrailerPolicy :=
  captureWithDirection headers version .request none

def captureResponseForVersion (status : StatusCode) : TrailerPolicy :=
  captureWithDirection headers version .response (some status)

/-- `names` followed by those of `more` that are not among them yet. -/
def extendNames (names more : List HeaderName) : List HeaderName :=
  more.foldl (fun names name => if names.contains name then names else names ++ [name]) names

variable (self : TrailerPolicy)

def disallowTrailers : TrailerPolicy :=
  if self.mode = .unsupportedH3 then self else { self with mode := .disallow }

def merge (other : TrailerPolicy) : TrailerPolicy :=
  let merged := { self with
    strictProtocol := other.strictProtocol.or self.strictProtocol
    connectionNames := extendNames self.connectionNames other.connectionNames
    declaredNames := extendNames self.declaredNames other.declaredNames }
  if other.mode = .unsupportedH3 then { merged with mode := .unsupportedH3 }
  else if other.mode = .disallow then merged.disallowTrailers
  else merged

def isForbidden (name : HeaderName) : Bool :=
  isForbiddenTrailerField self.direction name || self.connectionNames.contains name

def declaredNamesIn (headers : HeaderMap) : List HeaderName :=
  (listedNames (headers.getAll .trailer)).filter fun name => !self.isForbidden name

def setModeUnlessH3 (mode : TrailerMode) : TrailerPolicy :=
  if self.mode = .unsupportedH3 then self else { self with mode := mode }

def restrictToDeclaration (headers : HeaderMap) : TrailerPolicy :=
  { self with declaredNames := self.declaredNamesIn headers }.setModeUnlessH3 .declaredOnly

def deferToConnection (headers : HeaderMap) : TrailerPolicy :=
  { self with declaredNames := self.declaredNamesIn headers }.setModeUnlessH3 .defer

def selectForVersion : TrailerPolicy :=
  match version with
  | .http2 => { self with strictProtocol := some .http2, mode := .preserve }
  | .http3 => { self with strictProtocol := some .http3, mode := .unsupportedH3 }
  | _ => { self with mode := .declaredOnly }

def requireStrictFieldValuesForVersion : TrailerPolicy :=
  match FieldProtocol.fromVersion version with
  | some protocol => { self with strictProtocol := some protocol }
  | none => self

def declaration (names : List HeaderName) : Bytes :=
  (ascii ", ").intercalate (names.map HeaderName.bytes)

def sanitizeDeclaration (headers : HeaderMap) : HeaderMap :=
  if self.mode = .disallow then headers.remove .trailer
  else
    let declaredNames := self.declaredNamesIn headers
    let headers := headers.remove .trailer
    if declaredNames.isEmpty then headers
    else
      match HeaderValue.fromStr (declaration declaredNames) with
      | some value => headers.insert .trailer value
      | none => headers

def validateNativeH2H3Trailers (source : FieldProtocol) (trailers : HeaderMap) :
    Except Error Unit := do
  let policy : H2H3FieldPolicy := ⟨source, self.direction⟩
  policy.validateTrailers self.responseStatus trailers
  policy.checkTrailerNames ((trailers.lines.map Prod.fst).find? fun name =>
    self.connectionNames.contains name || (connectionOptions trailers).contains name)
    (ascii "connection-specific")

variable (trailers : HeaderMap)

def checkTrailers : Except Error Unit :=
  if self.nativeSource = some .http3 || self.mode = .unsupportedH3 then
    .error (.unsupported (ascii "HTTP/3 " ++ self.direction.name ++
      ascii " trailers are not supported by aioduct"))
  else
    match self.nativeSource, self.strictProtocol with
    | some source, _ => self.validateNativeH2H3Trailers source trailers
    | none, some protocol =>
      (H2H3FieldPolicy.mk protocol self.direction).validateFieldValues trailers (ascii "trailer")
    | none, none => .ok ()

def permittedTrailers : HeaderMap :=
  let frameConnectionNames := connectionOptions trailers
  let forbidden := (trailers.lines.map Prod.fst).filter self.isForbidden
  let trailers := forbidden.foldl remove trailers
  (self.connectionNames ++ frameConnectionNames).foldl remove trailers

def declaredTrailers : HeaderMap :=
  let undeclared := (trailers.lines.map Prod.fst).filter fun name =>
    !self.declaredNames.contains name
  undeclared.foldl remove trailers

def keptTrailers : HeaderMap :=
  match self.mode with
  | .preserve => self.permittedTrailers trailers
  | .declaredOnly => self.declaredTrailers (self.permittedTrailers trailers)
  | _ => ⟨[]⟩

def sanitizeTrailers : Except Error (Option HeaderMap) := do
  self.checkTrailers trailers
  let kept := self.keptTrailers trailers
  pure (if kept.lines.isEmpty then none else some kept)

variable {name : HeaderName}

lemma mem_extendNames {names more : List HeaderName} :
    name ∈ extendNames names more ↔ name ∈ names ∨ name ∈ more := by
  unfold extendNames
  induction more generalizing names with
  | nil => simp
  | cons first more ih =>
    rw [foldl_cons, ih, mem_cons]
    split
    next hf =>
      constructor
      · rintro (hn | hn)
        · exact .inl hn
        · exact .inr (.inr hn)
      rintro (hn | rfl | hn)
      · exact .inl hn
      · exact .inl (by simpa using hf)
      · exact .inr hn
    · simp [or_assoc]

lemma nodup_extendNames {names : List HeaderName} (h : names.Nodup) (more : List HeaderName) :
    (extendNames names more).Nodup := by
  unfold extendNames
  induction more generalizing names with
  | nil => exact h
  | cons first more ih =>
    rw [foldl_cons]
    split
    · exact ih h
    rename_i hf
    have hfre : first ∉ names := by simpa using hf
    exact ih (nodup_append.mpr ⟨h, nodup_singleton _, by
      intro name hn other ho heq
      rw [mem_singleton] at ho
      exact hfre (ho ▸ heq ▸ hn)⟩)

@[simp]
lemma capture_connectionNames : (capture headers).connectionNames = connectionOptions headers := rfl

variable (version : Version)

@[simp]
lemma captureWithDirection_connectionNames
    (status : Option UInt16) :
    (captureWithDirection headers version direction status).connectionNames =
      connectionOptions headers := by
  cases version <;> rfl

@[simp]
lemma captureWithDirection_direction
    (status : Option UInt16) :
    (captureWithDirection headers version direction status).direction = direction := by
  cases version <;> rfl

@[simp]
lemma disallowTrailers_connectionNames :
    self.disallowTrailers.connectionNames = self.connectionNames := by
  unfold disallowTrailers
  split <;> rfl

@[simp]
lemma disallowTrailers_direction : self.disallowTrailers.direction = self.direction := by
  unfold disallowTrailers
  split <;> rfl

@[simp]
lemma restrictToDeclaration_connectionNames (headers : HeaderMap) :
    (self.restrictToDeclaration headers).connectionNames = self.connectionNames := by
  unfold restrictToDeclaration setModeUnlessH3
  split <;> rfl

@[simp]
lemma restrictToDeclaration_direction (headers : HeaderMap) :
    (self.restrictToDeclaration headers).direction = self.direction := by
  unfold restrictToDeclaration setModeUnlessH3
  split <;> rfl

lemma restrictToDeclaration_mode (headers : HeaderMap) :
    (self.restrictToDeclaration headers).mode ≠ .preserve := by
  unfold restrictToDeclaration setModeUnlessH3
  intro hp
  split at hp
  next hm =>
    rw [hm] at hp
    cases hp
  · cases hp

lemma mem_of_restrictToDeclaration {self : TrailerPolicy} {headers : HeaderMap}
    (h : name ∈ (self.restrictToDeclaration headers).declaredNames) :
    name ∈ listedNames (headers.getAll .trailer) := by
  have hn : (self.restrictToDeclaration headers).declaredNames =
      self.declaredNamesIn headers := by
    unfold restrictToDeclaration setModeUnlessH3
    split <;> rfl
  rw [hn] at h
  exact (mem_filter.mp h).1

@[simp]
lemma captureRequestForVersion_connectionNames :
    (captureRequestForVersion headers version).connectionNames = connectionOptions headers :=
  captureWithDirection_connectionNames _ _ _ _

lemma sanitizeTrailers_eq_some {self : TrailerPolicy} {received fields : HeaderMap}
    (h : self.sanitizeTrailers received = .ok (some fields)) (hn : fields.getAll name ≠ []) :
    self.isForbidden name = false ∧
      (self.mode = .preserve ∨ self.mode = .declaredOnly ∧ name ∈ self.declaredNames) := by
  have hp : (self.permittedTrailers received).getAll name ≠ [] →
      self.isForbidden name = false := by
    intro hk
    rw [permittedTrailers, getAll_foldl_remove, getAll_foldl_remove_filter self.isForbidden] at hk
    by_contra hforb
    rw [Bool.not_eq_false] at hforb
    rw [if_pos hforb, ite_self] at hk
    exact hk rfl
  unfold sanitizeTrailers at h
  rw [bind_eq_ok] at h
  obtain ⟨⟨⟩, -, h⟩ := h
  dsimp only at h
  split at h
  · cases h
  obtain rfl := Option.some.inj (Except.ok.inj h)
  unfold keptTrailers at hn
  split at hn
  · exact ⟨hp hn, .inl ‹_›⟩
  · rw [declaredTrailers, getAll_foldl_remove_filter
      fun name => !self.declaredNames.contains name] at hn
    split at hn
    · exact absurd rfl hn
    next hd =>
      exact ⟨hp hn, .inr ⟨‹_›, by simpa using hd⟩⟩
  · exact absurd rfl hn

lemma sanitizeDeclaration_getAll (self : TrailerPolicy) (headers : HeaderMap)
    (hn : name ≠ .trailer) :
    (self.sanitizeDeclaration headers).getAll name = headers.getAll name := by
  unfold sanitizeDeclaration
  split
  · exact getAll_remove_of_ne hn headers
  dsimp only
  split
  · exact getAll_remove_of_ne hn headers
  · split
    · rw [getAll_insert_of_ne hn, getAll_remove_of_ne hn]
    · exact getAll_remove_of_ne hn headers

lemma sanitizeDeclaration_of_getAll_eq_nil {headers : HeaderMap}
    (h : headers.getAll .trailer = []) :
    (self.sanitizeDeclaration headers).getAll .trailer = [] := by
  have hn : self.declaredNamesIn headers = [] := by
    rw [declaredNamesIn, h]
    rfl
  unfold sanitizeDeclaration
  split
  · exact getAll_remove_self headers _
  · simp only [hn, isEmpty_nil, if_true]
    exact getAll_remove_self headers _

end TrailerPolicy

lemma isNameChar_not_ows {b : UInt8} (h : isNameChar b) : isOws b = false := by
  have hall : ∀ b : UInt8, isNameChar b → isOws b = false := by
    decide +kernel
  exact hall b h

variable (name : HeaderName)

lemma trim_name : trim isOws name.bytes = name.bytes := by
  apply trim_of_stops
  · intro b hb
    exact isNameChar_not_ows (name.nameChar b (mem_of_head? hb))
  · exact stopsEnd_of_all fun b hb => isNameChar_not_ows (name.nameChar b hb)

lemma comma_notMem_name : byte ',' ∉ name.bytes := by
  intro hm
  exact absurd (name.nameChar _ hm) (by decide)

variable {names : List HeaderName} {value : HeaderValue}

lemma listedNames_declaration (hne : names ≠ [])
    (hv : value.bytes = TrailerPolicy.declaration names) : listedNames [value] = names := by
  have hs := @map_trim_splitOn isOws (names.map bytes) (by simpa using hne) (by decide)
    (forall_mem_map.mpr fun name _ => ⟨comma_notMem_name name, trim_name name⟩)
  have hj : (fun token => fromBytes (trim isOws token)) = fromBytes ∘ trim isOws := rfl
  rw [listedNames, flatMap_singleton, hv, TrailerPolicy.declaration, hj, ← filterMap_map, hs]
  simp

lemma hasOuterWhitespace_declaration (hne : names ≠ [])
    (hv : value.bytes = TrailerPolicy.declaration names) :
    hasOuterWhitespace value = false := by
  rw [hasOuterWhitespace_eq_false, hv]
  constructor
  · obtain ⟨name, names, rfl⟩ := exists_cons_of_ne_nil hne
    obtain ⟨b, rest, hbyt⟩ := exists_cons_of_ne_nil name.ne_nil
    have hb := isNameChar_not_ows (name.nameChar b (by simp [hbyt]))
    cases names <;> simp [TrailerPolicy.declaration, hbyt, hb]
  apply stopsEnd_intercalate
  intro word hw
  obtain ⟨name, -, rfl⟩ := mem_map.mp hw
  exact ⟨name.ne_nil, stopsEnd_of_all fun b hb => isNameChar_not_ows (name.nameChar b hb)⟩

lemma TrailerPolicy.sanitizeDeclaration_trailer (self : TrailerPolicy) (headers : HeaderMap) :
    (self.sanitizeDeclaration headers).getAll .trailer = [] ∨
      ∃ value names, names ≠ [] ∧ value.bytes = declaration names ∧
        (∀ name ∈ names,
          name ∈ listedNames (headers.getAll .trailer) ∧ self.isForbidden name = false) ∧
        (self.sanitizeDeclaration headers).getAll .trailer = [value] := by
  unfold sanitizeDeclaration
  split
  · exact .inl (getAll_remove_self _ _)
  dsimp only
  split
  · exact .inl (getAll_remove_self _ _)
  rename_i hn
  split
  next value hv =>
    refine .inr ⟨value, self.declaredNamesIn headers, by simpa using hn,
      HeaderValue.fromStr_bytes hv, fun name hnam => ?_, getAll_insert_self _ _ _⟩
    obtain ⟨hl, hp⟩ := mem_filter.mp hnam
    exact ⟨hl, by simpa using hp⟩
  · exact .inl (getAll_remove_self _ _)

lemma TrailerPolicy.sanitizeDeclaration_of_permitted {self : TrailerPolicy} {headers : HeaderMap}
    (hm : self.mode ≠ .disallow) (hne : names ≠ []) (hv : value.bytes = declaration names)
    (hn : ∀ name ∈ names, self.isForbidden name = false)
    (ht : headers.getAll .trailer = [value]) :
    (self.sanitizeDeclaration headers).getAll .trailer = [value] := by
  have hd : self.declaredNamesIn headers = names := by
    rw [declaredNamesIn, ht, listedNames_declaration hne hv, filter_eq_self]
    intro name hnam
    simp [hn name hnam]
  have hempty : names.isEmpty = false := by simpa using hne
  rw [sanitizeDeclaration, if_neg hm]
  simp only [hd, hempty, Bool.false_eq_true, if_false, ← hv, HeaderValue.fromStr_self]
  exact getAll_insert_self _ _ _

end Aioduct.Forward
