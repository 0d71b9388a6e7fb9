import Aioduct.Cookies.Jar

/-!
# Accepted cookies

What is known of a cookie that the parser returned, and which lines it cannot cope with.
-/

namespace Aioduct.Cookies

open Wire Attribute Int

/-- The arithmetic of an attribute overflows: a lifetime beyond the last point in time, or a date
that the conversion cannot cope with. -/
def attributeOverflows (now : SystemTime) (state : Attributes) (attr : Bytes) : Bool :=
  match readAttribute attr with
  | .maxAge (some seconds) => decide (0 < seconds ∧ SystemTime.latest < now + seconds * 10 ^ 9)
  | .expires date =>
    state.expiresAt.isNone && !state.expired && (dateFields date).any DateFields.overflows
  | _ => false

variable {now : SystemTime} {state : Attributes} {domain line : Bytes}

lemma addSecs_eq_none {seconds : Int} (h : 0 < seconds) :
    now.addSecs seconds.toNat = none ↔ SystemTime.latest < now + seconds * 10 ^ 9 := by
  have hc : (seconds.toNat : Int) = seconds := toNat_of_nonneg (le_of_lt h)
  unfold SystemTime.addSecs
  rw [hc]
  split
  next hle =>
    exact iff_of_false (Option.some_ne_none _) (not_lt.mpr hle)
  next hle =>
    exact iff_of_true rfl (not_le.mp hle)

lemma applyMaxAge_eq_overflow {seconds : Int} :
    applyMaxAge now state seconds = .error .overflow ↔
      0 < seconds ∧ SystemTime.latest < now + seconds * 10 ^ 9 := by
  unfold applyMaxAge
  split
  next hle =>
    exact iff_of_false (by simp) (fun h => absurd h.1 (not_lt.mpr hle))
  rename_i hpos
  have hpos' : 0 < seconds := not_le.mp hpos
  rw [← addSecs_eq_none hpos']
  cases now.addSecs seconds.toNat with
  | none => simp [hpos']
  | some time => simp

lemma applyExpires_eq_overflow {date : Bytes} :
    applyExpires now state date = .error .overflow ↔
      (state.expiresAt.isNone && !state.expired) ∧
        (dateFields date).any DateFields.overflows := by
  unfold applyExpires
  rw [← parseHttpDate_eq_none]
  split
  next ho =>
    cases hd : parseHttpDate date with
    | none => simp [ho]
    | some result =>
      cases result with
      | none => simp
      | some time =>
        simp only [reduceCtorEq, and_false, iff_false]
        split <;> simp
  next ho =>
    simp [ho]

lemma applyAttribute_eq_overflow {attr : Bytes} :
    applyAttribute now domain state attr = .error .overflow ↔
      attributeOverflows now state attr := by
  unfold applyAttribute attributeOverflows
  cases readAttribute attr with
  | secure => simp
  | httpOnly => simp
  | domain value =>
    simp only [Bool.false_eq_true, iff_false]
    split <;> simp
  | path value => simp
  | sameSite value => simp
  | maxAge seconds =>
    cases seconds with
    | none => simp
    | some seconds =>
      rw [decide_eq_true_eq]
      exact applyMaxAge_eq_overflow
  | expires date =>
    rw [Bool.and_eq_true]
    exact applyExpires_eq_overflow
  | other => simp

/-- What a readable lifetime asks for: when the cookie ends, or that it is deleted. -/
inductive Lifetime where
  | maxAge (ends : Option SystemTime)
  | expires (ends : Option SystemTime)
  deriving DecidableEq

namespace Attribute

def domainValue : Attribute → Option Bytes
  | .domain value => some value
  | _ => none

def pathValue : Attribute → Option Bytes
  | path value => some value
  | _ => none

def lifetime (now : SystemTime) : Attribute → Option Lifetime
  | maxAge (some seconds) =>
    some (.maxAge (if seconds ≤ 0 then none else now.addSecs seconds.toNat))
  | expires date =>
    match parseHttpDate date with
    | some (some time) => some (.expires (if time < now then none else some time))
    | _ => none
  | _ => none

end Attribute

/-- What the loop makes of a lifetime, from the deletion mark and the end it has. -/
def Lifetime.extend : Bool × Option SystemTime → Lifetime → Bool × Option SystemTime
  | _, maxAge none => (true, none)
  | (expired, _), maxAge (some time) => (expired, some time)
  | (false, none), expires ends => (ends.isNone, ends)
  | state, expires _ => state

lemma Lifetime.extend_expires {expired : Bool} {time : Option SystemTime}
    (h : ¬(time.isNone && !expired)) (ends : Option SystemTime) :
    extend (expired, time) (.expires ends) = (expired, time) := by
  cases expired <;> cases time <;> first | rfl | exact absurd rfl h

/-- What a round of the loop does to the variables. -/
structure Reads (now : SystemTime) (host : Bytes) (attr : Attribute) (state state' : Attributes) :
    Prop where
  domain : state'.domain = attr.domainValue.elim state.domain some
  matching : ∀ value, attr = .domain value → DomainMatch host value
  path : state'.path = attr.pathValue.elim state.path some
  lifetime : (state'.expired, state'.expiresAt) = (attr.lifetime now).elim
    (state.expired, state.expiresAt) (Lifetime.extend (state.expired, state.expiresAt))

lemma reads_of_applyAttribute {state' : Attributes} {attr : Bytes}
    (h : applyAttribute now domain state attr = .ok state') :
    Reads now domain (readAttribute attr) state state' := by
  unfold applyAttribute at h
  cases ha : readAttribute attr with
  | domain value =>
    rw [ha] at h
    dsimp only at h
    split at h
    next hm =>
      cases h
      exact ⟨rfl, by simpa using domainMatches_iff.mp hm, rfl, rfl⟩
    · cases h
  | maxAge seconds =>
    rw [ha] at h
    cases seconds with
    | none =>
      cases h
      exact ⟨rfl, by simp, rfl, rfl⟩
    | some seconds =>
      simp only [applyMaxAge] at h
      split at h
      · cases h
        exact ⟨rfl, by simp, rfl, by simp [lifetime, Lifetime.extend, *]⟩
      split at h
      · cases h
      · cases h
        exact ⟨rfl, by simp, rfl, by simp [lifetime, Lifetime.extend, *]⟩
  | expires date =>
    rw [ha] at h
    simp only [applyExpires] at h
    split at h
    next ho =>
      simp only [Bool.and_eq_true, Option.isNone_iff_eq_none, Bool.not_eq_true'] at ho
      split at h
      · cases h
      · cases h
        exact ⟨rfl, by simp, rfl, by simp [lifetime, *]⟩
      · split at h <;>
        · cases h
          exact ⟨rfl, by simp, rfl, by simp [lifetime, Lifetime.extend, *]⟩
    rename_i hc
    cases h
    refine ⟨rfl, by simp, rfl, ?_⟩
    simp only [lifetime]
    split
    · exact (Lifetime.extend_expires hc _).symm
    · rfl
  | secure | httpOnly | path value | sameSite value | other =>
    rw [ha] at h
    cases h
    exact ⟨rfl, by simp, rfl, rfl⟩

/-- A line overflows: some attribute does, when those before it have been read. -/
def LineOverflows (now : SystemTime) (domain line : Bytes) : Prop :=
  ∃ name value front attr rest state,
    nameValue ((line.splitOn (byte ';')).headD []) = .ok (name, value) ∧
    (line.splitOn (byte ';')).tail = front ++ attr :: rest ∧
    front.foldlM (applyAttribute now domain) {} = .ok state ∧
    attributeOverflows now state attr = true

lemma nameValue_ne_overflow (part : Bytes) : nameValue part ≠ .error .overflow := by
  unfold nameValue
  split
  · simp
  · split <;> simp

lemma finishCookie_ne_overflow (domain : Bytes) (cookie : Cookie) :
    finishCookie domain cookie ≠ .error .overflow := by
  unfold finishCookie
  split <;> simp

lemma parseSetCookie_eq_overflow {path : Bytes} :
    parseSetCookie now line domain path = .error .overflow ↔ LineOverflows now domain line := by
  unfold parseSetCookie LineOverflows
  simp only [except_bind_eq_error, nameValue_ne_overflow, finishCookie_ne_overflow, and_false,
    exists_false, false_or, or_false, except_foldlM_eq_error, applyAttribute_eq_overflow]
  constructor
  · rintro ⟨⟨name, value⟩, hn, front, attr, rest, state, hs, hf, ha⟩
    exact ⟨name, value, front, attr, rest, state, hn, hs, hf, ha⟩
  · rintro ⟨name, value, front, attr, rest, state, hn, hs, hf, ha⟩
    exact ⟨(name, value), hn, front, attr, rest, state, hs, hf, ha⟩

structure Accepted (host line : Bytes) (c : Cookie) : Prop where
  domain : (c.hostOnly = true ∧ c.domain = some host) ∨
    (c.hostOnly = false ∧ ∃ d, c.domain = some d ∧ DomainMatch host d)
  name_text : ∀ b ∈ c.name, b ∈ line
  value_text : ∀ b ∈ c.value, b ∈ line
  rules : prefixRulesHold host c = true

lemma nameValue_text {part name value : Bytes} (h : nameValue part = .ok (name, value)) :
    (∀ b ∈ name, b ∈ part) ∧ ∀ b ∈ value, b ∈ part := by
  unfold nameValue at h
  split at h
  · cases h
  rename_i left right hs
  split at h
  · cases h
  cases h
  have hw := splitOnce_eq_some hs
  constructor
  all_goals
    intro b hb
    apply Utf8.mem_of_mem_trimText
    rw [hw]
    simp [Utf8.mem_of_mem_trimText hb]

lemma mem_of_mem_headD_splitOn {sep b : UInt8} (h : b ∈ (line.splitOn sep).headD []) :
    b ∈ line := by
  have hj : [sep].intercalate (line.splitOn sep) = line := List.intercalate_splitOn sep
  cases hp : line.splitOn sep with
  | nil => exact absurd hp (List.splitOn_ne_nil _ _)
  | cons first rest =>
    rw [hp] at h hj
    rw [← hj]
    cases rest with
    | nil => simpa using h
    | cons second rest =>
      simp [show b ∈ first from h]

lemma parseSetCookie_eq_ok {path : Bytes} {c : Cookie}
    (h : parseSetCookie now line domain path = .ok c) : ∃ name value state,
      nameValue ((line.splitOn (byte ';')).headD []) = .ok (name, value) ∧
      (line.splitOn (byte ';')).tail.foldlM (applyAttribute now domain) {} = .ok state ∧
      c = assemble domain path name value state ∧ prefixRulesHold domain c := by
  unfold parseSetCookie at h
  simp only [bind_eq_ok] at h
  obtain ⟨⟨name, value⟩, hn, state, hs, h⟩ := h
  unfold finishCookie at h
  split at h
  next hr =>
    cases h
    exact ⟨name, value, state, hn, hs, rfl, hr⟩
  · cases h

lemma accepted_of_parseSetCookie {host path : Bytes} {c : Cookie}
    (h : parseSetCookie now line host path = .ok c) : Accepted host line c := by
  obtain ⟨name, value, state, hnam, hs, rfl, hrul⟩ := parseSetCookie_eq_ok h
  obtain ⟨hn, hv⟩ := nameValue_text hnam
  have hd : state.domain = none ∨ ∃ d, state.domain = some d ∧ DomainMatch host d := by
    apply except_foldlM_preserves (P := fun state : Attributes =>
      state.domain = none ∨ ∃ d, state.domain = some d ∧ DomainMatch host d) _ hs
      (.inl rfl)
    intro state attr state' hP hste
    have hr := reads_of_applyAttribute hste
    rw [hr.domain]
    cases ha : readAttribute attr with
    | domain value => exact .inr ⟨value, rfl, hr.matching value ha⟩
    | _ => exact hP
  refine ⟨?_, fun b hb => mem_of_mem_headD_splitOn (hn b hb),
    fun b hb => mem_of_mem_headD_splitOn (hv b hb), hrul⟩
  rcases hd with hnone | ⟨d, hsome, hm⟩
  · exact .inl (by simp [assemble, hnone])
  · exact .inr ⟨by simp [assemble, hsome], d, by simp [assemble, hsome], hm⟩

end Aioduct.Cookies
