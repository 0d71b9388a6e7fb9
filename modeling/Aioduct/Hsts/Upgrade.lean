import Aioduct.Hsts.Store

/-!
# Which hosts are upgraded

A host is upgraded if a policy of its own, or one of a domain above it that includes subdomains,
lasts longer than now.
-/

namespace Aioduct.Hsts

open Wire Http HstsStore Function List Option SystemTime Assoc Int Nat

abbrev Policies := Bytes → Option HstsEntry

/-- The host is to be reached over HTTPS. -/
def Policies.Covers (policies : Policies) (time : Instant) (host : Bytes) : Prop :=
  (∃ entry, policies host = some entry ∧ time < entry.expiresAt) ∨
    ∃ domain ∈ parents host, ∃ entry, policies domain = some entry ∧
      entry.includeSubdomains = true ∧ time < entry.expiresAt

/-- The policies after a header that asks for a lifetime in seconds. -/
def Policies.learn (policies : Policies) (now : Instant) (key : Bytes) (maxAge : Nat)
    (includeSubdomains : Bool) : Policies :=
  update policies key
    (if maxAge = 0 then none else some ⟨includeSubdomains, now + maxAge * 10 ^ 9⟩)

def Policies.receive (policies : Policies) (now : Instant) (host : Bytes) (headers : HeaderMap) :
    Policies :=
  match canonicalHost host, received headers with
  | some key, some (maxAge, includeSubdomains) =>
    policies.learn now key maxAge includeSubdomains
  | _, _ => policies

namespace HstsStore

def policies (self : HstsStore) : Policies := Assoc.get self.entries

variable {self : HstsStore} {key : Bytes}

lemma shouldUpgrade_iff (hlock : self.poisoned = false) {host : Bytes}
    (hkey : canonicalHost host = some key) (time : Instant) :
    self.shouldUpgrade time host ↔ self.policies.Covers time key := by
  simp [shouldUpgrade, hkey, hlock, Policies.Covers, policies, Option.any_eq_true]

lemma policies_retain (self : HstsStore) (p : Bytes × HstsEntry → Bool) (key : Bytes) :
    (self.retain p).policies key = (self.policies key).filter fun entry => p (key, entry) :=
  get_filter self.nodup p key

lemma policies_remove (self : HstsStore) (host : Bytes) :
    (self.remove host).policies = update self.policies host none := by
  funext key
  by_cases h : key = host
  · subst h
    rw [update_self]
    exact get_filter_ne_self self.entries key
  · rw [update_of_ne h]
    exact get_filter_ne_of_ne self.entries h

lemma policies_insert (self : HstsStore) {host : Bytes} (hkey : canonicalHost host = some key)
    (entry : HstsEntry) :
    (self.insert hkey entry).policies = update self.policies key (some entry) := by
  funext other
  by_cases h : other = key
  · subst h
    rw [update_self]
    exact get_replaceOrAppend_self self.entries other entry
  · rw [update_of_ne h]
    exact get_replaceOrAppend_of_ne self.entries h entry

lemma dropExpired_poisoned (self : HstsStore) (now : Instant) :
    (self.dropExpired now).poisoned = self.poisoned := by
  unfold dropExpired
  split <;> rfl

lemma dropOldest_poisoned (self : HstsStore) : self.dropOldest.poisoned = self.poisoned := by
  unfold dropOldest
  split <;> rfl

lemma storeFromResponse_cases (hlock : self.poisoned = false) (now : Instant) (host : Bytes)
    (headers : HeaderMap) :
    (canonicalHost host = none ∨ received headers = none) ∧
        self.storeFromResponse now host headers = self ∧
        self.policies.receive now host headers = self.policies ∨
      ∃ key maxAge includeSubdomains, ∃ hkey : canonicalHost host = some key,
        received headers = some (maxAge, includeSubdomains) ∧
        self.storeFromResponse now host headers =
          self.learn now hkey maxAge includeSubdomains ∧
        self.policies.receive now host headers =
          self.policies.learn now key maxAge includeSubdomains := by
  unfold storeFromResponse Policies.receive
  split
  next hnone =>
    simp [hnone]
  rename_i key hkey
  cases hr : received headers with
  | none => simp
  | some directives => exact .inr ⟨key, _, _, hkey, rfl, by simp [hlock], by rw [hkey]⟩

end HstsStore

variable {host : Bytes}

lemma length_lt_of_mem_parents {domain : Bytes} (h : domain ∈ parents host) :
    domain.length < host.length := by
  induction host with
  | nil => cases h
  | cons b host ih =>
    simp only [parents] at h
    split at h
    · rcases mem_cons.mp h with rfl | h
      · simp
      · have hlen := ih h
        simp only [length_cons]
        omega
    · have hlen := ih h
      simp only [length_cons]
      omega

lemma mem_parents_trans {domain middle : Bytes} (hdom : domain ∈ parents middle)
    (hm : middle ∈ parents host) : domain ∈ parents host := by
  induction host with
  | nil => cases hm
  | cons b host ih =>
    simp only [parents] at hm ⊢
    split at hm
    next hd =>
      rw [if_pos hd]
      rcases mem_cons.mp hm with rfl | hm
      · exact mem_cons_of_mem _ hdom
      · exact mem_cons_of_mem _ (ih hm)
    next hd =>
      rw [if_neg hd]
      exact ih hm

namespace Policies

/-- The same policies, among those that last beyond a time. -/
def SameFrom (now : Instant) (policies policies' : Policies) : Prop :=
  ∀ key entry, now < entry.expiresAt →
    (policies key = some entry ↔ policies' key = some entry)

variable {policies policies' : Policies} {time : Instant} {victim : Bytes}

lemma SameFrom.update {now : Instant} (h : SameFrom now policies policies')
    (key : Bytes) (entry : Option HstsEntry) :
    SameFrom now (update policies key entry) (update policies' key entry) := by
  intro other found hl
  by_cases ho : other = key
  · subst ho
    simp
  · simpa [ho] using h other found hl

lemma SameFrom.covers {now : Instant} (h : SameFrom now policies policies')
    (ht : now ≤ time) (host : Bytes) :
    policies.Covers time host ↔ policies'.Covers time host := by
  have hs : ∀ key entry, time < entry.expiresAt →
      (policies key = some entry ↔ policies' key = some entry) :=
    fun key entry hl => h key entry (lt_of_le_of_lt ht hl)
  refine or_congr (exists_congr fun entry => ?_) (exists_congr fun domain =>
    and_congr_right fun _ => exists_congr fun entry => ?_)
  · exact and_congr_left (hs host entry)
  · exact and_congr_left fun h => hs domain entry h.2

/-- A domain above the host stands in for a policy until that ends. -/
def StandsIn (policies : Policies) (host : Bytes) (entry : HstsEntry) : Prop :=
  ∃ domain ∈ parents host, ∃ other, policies domain = some other ∧
    other.includeSubdomains = true ∧ entry.expiresAt ≤ other.expiresAt

lemma covers_of_forgotten (h : Covers (update policies victim none) time host) :
    policies.Covers time host := by
  have hk : ∀ key entry, update policies victim none key = some entry →
      policies key = some entry := by
    intro key entry he
    by_cases hkey : key = victim
    · subst hkey
      simp at he
    · simpa [hkey] using he
  rcases h with ⟨entry, he, hl⟩ | ⟨domain, hd, entry, he, hs, hl⟩
  · exact .inl ⟨entry, hk host entry he, hl⟩
  · exact .inr ⟨domain, hd, entry, hk domain entry he, hs, hl⟩

lemma covers_forgotten {entry : HstsEntry} (hvic : policies victim = some entry)
    (hs : policies.StandsIn victim entry) (h : policies.Covers time host) :
    Covers (update policies victim none) time host := by
  obtain ⟨above, ha, other, ho, hsub, hle⟩ := hs
  have ho : update policies victim none above = some other := by
    rw [update_of_ne, ho]
    rintro rfl
    exact absurd (length_lt_of_mem_parents ha) (lt_irrefl _)
  rcases h with ⟨found, hf, hl⟩ | ⟨domain, hd, found, hf, hfou, hl⟩
  · by_cases hh : host = victim
    · subst hh
      obtain rfl : entry = found := some.inj (hvic.symm.trans hf)
      exact .inr ⟨above, ha, other, ho, hsub, lt_of_lt_of_le hl hle⟩
    · exact .inl ⟨found, by rwa [update_of_ne hh], hl⟩
  by_cases hv : domain = victim
  · subst hv
    obtain rfl : entry = found := some.inj (hvic.symm.trans hf)
    exact .inr ⟨above, mem_parents_trans ha hd, other, ho, hsub, lt_of_lt_of_le hl hle⟩
  · exact .inr ⟨domain, hd, found, by rwa [update_of_ne hv], hfou, hl⟩

lemma standsIn_of_covers_forgotten {entry : HstsEntry}
    (h : Covers (update policies victim none) (entry.expiresAt - 1) victim) :
    policies.StandsIn victim entry := by
  rcases h with ⟨found, hf, -⟩ | ⟨domain, hd, found, hf, hs, hl⟩
  · simp at hf
  refine ⟨domain, hd, found, ?_, hs, sub_one_lt_iff.mp hl⟩
  rw [update_of_ne] at hf
  · exact hf
  · rintro rfl
    exact absurd (length_lt_of_mem_parents hd) (lt_irrefl _)

end Policies

namespace HstsStore

lemma sameFrom_dropExpired (self : HstsStore) (now : Instant) :
    Policies.SameFrom now (self.dropExpired now).policies self.policies := by
  intro key entry hl
  unfold dropExpired
  split
  · rw [policies_retain]
    cases self.policies key with
    | none => simp
    | some found =>
      simp only [filter_eq_some_iff, decide_eq_true_eq, and_iff_left_iff_imp]
      intro _
      exact hl
  · rfl

variable {self : HstsStore} {now : Instant} {entry : HstsEntry} {victim key : Bytes} {maxAge : Nat}
  {headers : HeaderMap}

lemma oldest_dropExpired (h : (self.dropExpired now).oldest = some (victim, entry)) :
    (self.dropExpired now).policies victim = some entry ∧ now < entry.expiresAt := by
  unfold oldest at h
  split at h
  next hf =>
    have hm := mem_of_minByKey h
    refine ⟨get_of_mem (self.dropExpired now).nodup hm, ?_⟩
    unfold dropExpired at hm hf
    split at hm
    · simpa using (mem_filter.mp hm).2
    next hs =>
      rw [if_neg hs] at hf
      exact absurd hf hs
  · cases h

lemma addSecs_eq (h : now + maxAge * 10 ^ 9 ≤ latest) :
    addSecs now maxAge = some (now + maxAge * 10 ^ 9) := if_pos h

lemma learn_poisoned (hlock : self.poisoned = false) (now : Instant)
    (hkey : canonicalHost host = some key) (ha : maxAge ≠ 0) (includeSubdomains : Bool) :
    (self.learn now hkey maxAge includeSubdomains).poisoned = false ↔
      now + maxAge * 10 ^ 9 ≤ latest := by
  by_cases hf : now + maxAge * 10 ^ 9 ≤ latest
  · refine iff_of_true ?_ hf
    simp [learn, ha, addSecs_eq hf, insert, dropOldest_poisoned, dropExpired_poisoned, hlock]
  · have ho : addSecs now maxAge = none := if_neg hf
    refine iff_of_false ?_ hf
    simp [learn, ha, ho]

lemma sameFrom_learn (hkey : canonicalHost host = some key) (ha : maxAge ≠ 0)
    (hf : now + maxAge * 10 ^ 9 ≤ latest) (includeSubdomains : Bool)
    (hv : ∀ item, (self.dropExpired now).oldest = some item → item.1 = key) :
    Policies.SameFrom now (self.learn now hkey maxAge includeSubdomains).policies
      (self.policies.learn now key maxAge includeSubdomains) := by
  have hs := (self.sameFrom_dropExpired now).update key
    (some ⟨includeSubdomains, now + maxAge * 10 ^ 9⟩)
  simp only [learn, Policies.learn, if_neg ha, addSecs_eq hf, policies_insert, dropOldest]
  cases ho : (self.dropExpired now).oldest with
  | none => exact hs
  | some item =>
    simp only [policies_remove, hv item ho, update_idem]
    exact hs

lemma policies_learn_of_victim (hkey : canonicalHost host = some key) (ha : maxAge ≠ 0)
    (hf : now + maxAge * 10 ^ 9 ≤ latest) (includeSubdomains : Bool)
    (hv : (self.dropExpired now).oldest = some (victim, entry)) (hne : victim ≠ key) :
    (self.learn now hkey maxAge includeSubdomains).policies =
      update ((self.dropExpired now).policies.learn now key maxAge includeSubdomains)
        victim none := by
  simp only [learn, Policies.learn, if_neg ha, addSecs_eq hf, policies_insert, dropOldest,
    hv, policies_remove]
  exact update_comm hne _ _ _

/-- The call returns, and every host that was stored before it gets the answer that it should. -/
def StillAnswers (self : HstsStore) (now : Instant) (host : Bytes) (headers : HeaderMap) : Prop :=
  (self.storeFromResponse now host headers).poisoned = false ∧
    ∀ name key, canonicalHost name = some key → (self.policies key).isSome →
      ∀ time, now ≤ time →
        ((self.storeFromResponse now host headers).shouldUpgrade time name = true ↔
          (self.policies.receive now host headers).Covers time key)

/-- A header that asks for a lifetime does not overflow, and no policy of another host is given up
for it without a domain that stands in. -/
def Undisturbed (self : HstsStore) (now : Instant) (host : Bytes) (headers : HeaderMap) : Prop :=
  ∀ key maxAge includeSubdomains, canonicalHost host = some key →
    received headers = some (maxAge, includeSubdomains) → maxAge ≠ 0 →
    now + maxAge * 10 ^ 9 ≤ SystemTime.latest ∧
      ∀ victim entry, (self.dropExpired now).oldest = some (victim, entry) → victim ≠ key →
        (self.policies.receive now host headers).StandsIn victim entry

lemma stillAnswers_of_sameFrom
    (hlock : (self.storeFromResponse now host headers).poisoned = false)
    (hs : Policies.SameFrom now (self.storeFromResponse now host headers).policies
      (self.policies.receive now host headers)) : self.StillAnswers now host headers := by
  refine ⟨hlock, fun name key hkey _ time ht => ?_⟩
  rw [shouldUpgrade_iff hlock hkey]
  exact hs.covers ht key

lemma stillAnswers_of_victim {policies : Policies}
    (hlock : (self.storeFromResponse now host headers).poisoned = false)
    (hp : (self.storeFromResponse now host headers).policies =
      update policies victim none)
    (hsam : Policies.SameFrom now policies (self.policies.receive now host headers))
    (hsto : self.policies victim = some entry) (hv : policies victim = some entry)
    (hl : now < entry.expiresAt) :
    self.StillAnswers now host headers ↔
      (self.policies.receive now host headers).StandsIn victim entry := by
  have hs : policies.StandsIn victim entry ↔
      (self.policies.receive now host headers).StandsIn victim entry := by
    refine exists_congr fun domain => and_congr_right fun _ => exists_congr fun other => ?_
    exact and_congr_left fun h => hsam domain other (lt_of_lt_of_le hl h.2)
  rw [← hs]
  constructor
  · rintro ⟨-, ha⟩
    obtain ⟨name, hn⟩ := self.canonical victim (mem_map_of_mem (mem_of_get hsto))
    have ht : now ≤ entry.expiresAt - 1 := le_sub_one_of_lt hl
    have hans := ha name victim hn (by simp [hsto]) _ ht
    rw [shouldUpgrade_iff hlock hn, hp, ← hsam.covers ht] at hans
    apply Policies.standsIn_of_covers_forgotten
    exact hans.mpr (.inl ⟨entry, hv, sub_one_lt_iff.mpr (le_refl _)⟩)
  intro hs
  refine ⟨hlock, fun name key hkey _ time ht => ?_⟩
  rw [shouldUpgrade_iff hlock hkey, hp, ← hsam.covers ht]
  exact ⟨Policies.covers_of_forgotten, Policies.covers_forgotten hv hs⟩

section Received

variable {self : HstsStore} {now : Instant} {host key : Bytes} {headers : HeaderMap} {maxAge : Nat}
  {includeSubdomains : Bool} (hlock : self.poisoned = false)
  (hkey : canonicalHost host = some key)
  (hstore : self.storeFromResponse now host headers =
    self.learn now hkey maxAge includeSubdomains)
  (hreceive : self.policies.receive now host headers =
    self.policies.learn now key maxAge includeSubdomains)

include hlock hkey hstore hreceive

lemma stillAnswers_of_zero (ha : maxAge = 0) : self.StillAnswers now host headers := by
  subst ha
  apply stillAnswers_of_sameFrom
  · rw [hstore]
    exact hlock
  · rw [hstore, hreceive]
    simp [learn, Policies.learn, policies_remove, Policies.SameFrom]

lemma stillAnswers_of_fits (ha : maxAge ≠ 0)
    (hf : now + maxAge * 10 ^ 9 ≤ latest) :
    self.StillAnswers now host headers ↔
      ∀ victim entry, (self.dropExpired now).oldest = some (victim, entry) → victim ≠ key →
        (self.policies.receive now host headers).StandsIn victim entry := by
  have hu : (self.storeFromResponse now host headers).poisoned = false := by
    rw [hstore, learn_poisoned hlock now hkey ha]
    exact hf
  by_cases hv : ∃ item, (self.dropExpired now).oldest = some item ∧ item.1 ≠ key
  · obtain ⟨⟨victim, entry⟩, ho, hne⟩ := hv
    obtain ⟨he, hl⟩ := oldest_dropExpired ho
    have hs := (self.sameFrom_dropExpired now victim entry hl).mp he
    have hsam := (self.sameFrom_dropExpired now).update key
      (if maxAge = 0 then none else some ⟨includeSubdomains, now + maxAge * 10 ^ 9⟩)
    have hp := policies_learn_of_victim hkey ha hf includeSubdomains ho hne
    rw [← hstore] at hp
    rw [stillAnswers_of_victim hu hp (hreceive ▸ hsam) hs
      (by rw [Policies.learn, update_of_ne hne, he]) hl]
    simp [ho, hne]
  simp only [not_exists, not_and, ne_eq, not_not] at hv
  refine iff_of_true (stillAnswers_of_sameFrom hu ?_) fun victim entry ho hne =>
    absurd (hv _ ho) hne
  rw [hstore, hreceive]
  exact sameFrom_learn hkey ha hf includeSubdomains hv

end Received

/-- A header leaves the answers for all stored hosts right exactly if its lifetime can be
represented and the store has not to forget another host for it. -/
theorem still_answers_iff {self : HstsStore} (hlock : self.poisoned = false) (now : Instant)
    (host : Bytes) (headers : HeaderMap) :
    self.StillAnswers now host headers ↔ self.Undisturbed now host headers := by
  rcases storeFromResponse_cases hlock now host headers with
    ⟨hi, hstore, hreceive⟩ | ⟨key, maxAge, includeSubdomains, hkey, hr, hstore, hreceive⟩
  · refine iff_of_true (stillAnswers_of_sameFrom (by rw [hstore, hlock]) ?_) ?_
    · rw [hstore, hreceive]
      exact fun _ _ _ => Iff.rfl
    · rcases hi with h | h <;> simp [Undisturbed, h]
  by_cases ha : maxAge = 0
  · refine iff_of_true (stillAnswers_of_zero hlock hkey hstore hreceive ha) ?_
    simp [Undisturbed, hr, ha]
  by_cases hf : now + maxAge * 10 ^ 9 ≤ latest
  · rw [stillAnswers_of_fits hlock hkey hstore hreceive ha hf]
    constructor
    · intro hs key' maxAge' includeSubdomains' hk' hr' _
      obtain rfl : key = key' := some.inj (hkey.symm.trans hk')
      obtain ⟨rfl, -⟩ : maxAge = maxAge' ∧ includeSubdomains = includeSubdomains' := by
        simpa using hr.symm.trans hr'
      exact ⟨hf, hs⟩
    · intro h
      exact (h key maxAge includeSubdomains hkey hr ha).2
  refine iff_of_false (fun h => hf ?_) fun h =>
    hf (h key maxAge includeSubdomains hkey hr ha).1
  rw [← learn_poisoned hlock now hkey ha includeSubdomains, ← hstore]
  exact h.1

def sampleStore : HstsStore :=
  new.storeFromResponse 0 (ascii "example.com")
    ⟨[(strictTransportSecurity, ⟨ascii "max-age=3600", by decide⟩)]⟩

def endlessHeaders : HeaderMap :=
  ⟨[(strictTransportSecurity, ⟨ascii "max-age=18446744073709551615", by decide⟩)]⟩

def yearHeaders : HeaderMap :=
  ⟨[(strictTransportSecurity, ⟨ascii "max-age=31536000; includeSubDomains", by decide⟩)]⟩

theorem still_answers_iff_sample :
    sampleStore.StillAnswers 0 (ascii "other.test") yearHeaders ↔
      sampleStore.Undisturbed 0 (ascii "other.test") yearHeaders :=
  still_answers_iff (by decide) 0 _ _

/-- No host is upgraded after a response of another one. -/
theorem endless_lifetime_poisons_store :
    sampleStore.shouldUpgrade 0 (ascii "example.com") = true ∧
      (sampleStore.storeFromResponse 0 (ascii "evil.test") endlessHeaders).poisoned = true ∧
      (∀ time host, (sampleStore.storeFromResponse 0 (ascii "evil.test")
        endlessHeaders).shouldUpgrade time host = false) ∧
      ¬sampleStore.StillAnswers 0 (ascii "evil.test") endlessHeaders := by
  have hp :
      (sampleStore.storeFromResponse 0 (ascii "evil.test") endlessHeaders).poisoned = true := by
    decide
  refine ⟨by decide, hp, fun time host => ?_, fun h => ?_⟩
  · unfold shouldUpgrade
    cases canonicalHost host with
    | none => rfl
    | some key => simp [hp]
  · exact absurd (hp.symm.trans h.1) (by decide)

/-! ### Runs -/

structure Reception where
  now : Instant
  host : Bytes
  headers : HeaderMap

def receive (self : HstsStore) (r : Reception) : HstsStore :=
  self.storeFromResponse r.now r.host r.headers

def run (self : HstsStore) (rs : List Reception) : HstsStore := rs.foldl receive self

def latest (policies : Policies) (rs : List Reception) : Policies :=
  rs.foldl (fun policies r => policies.receive r.now r.host r.headers) policies

/-- A lifetime that is asked for can be represented, and a known host does not meet a full
store. -/
def Admits (self : HstsStore) (r : Reception) : Prop :=
  ∀ key ∈ canonicalHost r.host, ∀ directives ∈ received r.headers, directives.1 ≠ 0 →
    r.now + directives.1 * 10 ^ 9 ≤ SystemTime.latest ∧
      ((self.policies key).isSome → self.entries.length < capacity)

def AdmitsAll (self : HstsStore) : List Reception → Prop
  | [] => True
  | r :: rs => self.Admits r ∧ (self.receive r).AdmitsAll rs

variable {r : Reception} {rs : List Reception} {hosts : List Bytes}

lemma receive_of_ne (policies : Policies) {other : Bytes}
    (hne : canonicalHost r.host ≠ some other) :
    policies.receive r.now r.host r.headers other = policies other := by
  cases hkey : canonicalHost r.host with
  | none => simp [Policies.receive, hkey]
  | some key =>
    have ho : other ≠ key := fun h => hne (h ▸ hkey)
    cases hr : received r.headers <;> simp [Policies.receive, hkey, hr, Policies.learn, ho]

lemma receive_of_poisoned (hlock : self.poisoned) (r : Reception) : self.receive r = self := by
  unfold receive storeFromResponse
  split
  · rfl
  · cases received r.headers <;> simp [hlock]

lemma length_dropOldest (hlen : self.entries.length ≤ capacity) :
    self.dropOldest.entries.length < capacity := by
  unfold dropOldest oldest
  by_cases hf : capacity ≤ self.entries.length
  · rw [if_pos hf]
    cases hm : minByKey (·.2.expiresAt) self.entries with
    | none =>
      cases he : self.entries with
      | nil => exact zero_lt_succ _
      | cons item rest =>
        rw [he, minByKey] at hm
        grind
    | some item =>
      have hlt : (self.remove item.1).entries.length < self.entries.length :=
        length_filter_lt_length_iff_exists.mpr
          ⟨item, mem_of_minByKey hm, by simp⟩
      exact lt_of_lt_of_le hlt hlen
  · rw [if_neg hf]
    exact Nat.lt_of_not_le hf

lemma length_receive (hlen : self.entries.length ≤ capacity) (r : Reception) :
    (self.receive r).entries.length ≤ capacity := by
  cases hlock : self.poisoned with
  | true => rwa [receive_of_poisoned hlock]
  | false => ?_
  rcases storeFromResponse_cases hlock r.now r.host r.headers with
    ⟨-, hs, -⟩ | ⟨key, maxAge, sub, hkey, -, hl, -⟩
  · rwa [receive, hs]
  have he : (self.dropExpired r.now).entries.length ≤ capacity := by
    unfold dropExpired
    split
    · exact (length_filter_le _ _).trans hlen
    · exact hlen
  have hr := length_dropOldest he
  rw [receive, hl, learn]
  split
  · exact (length_filter_le _ _).trans hlen
  split
  · exact (length_replaceOrAppend_le ..).trans hr
  · exact hr.le

lemma length_run (hlen : self.entries.length ≤ capacity) (rs : List Reception) :
    (self.run rs).entries.length ≤ capacity := by
  induction rs generalizing self with
  | nil => exact hlen
  | cons r rs ih => exact ih (length_receive hlen r)

lemma policies_receive (hlock : self.poisoned = false) (ha : self.Admits r)
    (hr : ∀ key ∈ canonicalHost r.host, self.policies key = none →
      self.entries.length < capacity) :
    (self.receive r).poisoned = false ∧
      (self.receive r).policies = self.policies.receive r.now r.host r.headers := by
  unfold receive
  rcases storeFromResponse_cases hlock r.now r.host r.headers with
    ⟨-, hs, hp⟩ | ⟨key, maxAge, sub, hkey, hrec, hl, hp⟩
  · rw [hs, hp]
    exact ⟨hlock, rfl⟩
  rw [hl, hp, learn, Policies.learn]
  split
  · exact ⟨hlock, policies_remove self key⟩
  rename_i hage
  obtain ⟨hf, hk⟩ := ha key hkey (maxAge, sub) hrec hage
  have hlt : self.entries.length < capacity := by
    cases hp : self.policies key with
    | none => exact hr key hkey hp
    | some entry => exact hk (by simp [hp])
  have hkep : (self.dropExpired r.now).dropOldest = self := by
    simp [dropExpired, dropOldest, oldest, not_le.mpr hlt]
  rw [addSecs_eq hf, hkep]
  exact ⟨hlock, policies_insert self hkey _⟩

lemma length_lt_of_new (hk : ∀ key, (self.policies key).isSome → key ∈ hosts)
    (hc : hosts.length ≤ capacity) (hkey : key ∈ hosts) (hn : self.policies key = none) :
    self.entries.length < capacity := by
  have hs : ∀ key ∈ keys self.entries, (self.policies key).isSome := by
    intro key hm
    obtain ⟨item, hi, rfl⟩ := mem_map.mp hm
    simp [policies, get_of_mem self.nodup hi]
  have hnot : key ∉ keys self.entries := fun hm => by simpa [hn] using hs key hm
  have hsub : key :: keys self.entries ⊆ hosts :=
    cons_subset.mpr ⟨hkey, fun key hm => hk key (hs key hm)⟩
  have hle := ((nodup_cons.mpr ⟨hnot, self.nodup⟩).subperm hsub).length_le
  simp only [Assoc.keys, length_cons, length_map] at hle
  omega

lemma policies_run (hc : hosts.length ≤ capacity) (hlock : self.poisoned = false)
    (hk : ∀ key, (self.policies key).isSome → key ∈ hosts)
    (hh : ∀ r ∈ rs, ∀ key ∈ canonicalHost r.host, key ∈ hosts) (ha : self.AdmitsAll rs) :
    (self.run rs).poisoned = false ∧ (self.run rs).policies = latest self.policies rs := by
  induction rs generalizing self with
  | nil => exact ⟨hlock, rfl⟩
  | cons r rs ih =>
    have hhos := hh r mem_cons_self
    obtain ⟨ho, hp⟩ := policies_receive hlock ha.1 fun key hkey =>
      length_lt_of_new hk hc (hhos key hkey)
    have hr := ih ho (fun key hsome => ?_) (fun r' hr' => hh r' (mem_cons_of_mem r hr')) ha.2
    · rwa [hp] at hr
    by_cases hkey : canonicalHost r.host = some key
    · exact hhos key hkey
    · rw [hp, receive_of_ne _ hkey] at hsome
      exact hk key hsome

/-- A run answers by the latest policies while no known host meets a full store; no run fills the
store beyond its capacity, and a known host that finds room leaves the others their policies. -/
theorem run_exact (hcap : hosts.length ≤ capacity)
    (hhosts : ∀ r ∈ rs, ∀ key ∈ canonicalHost r.host, key ∈ hosts) (hadm : new.AdmitsAll rs) :
    (∀ time name, (new.run rs).shouldUpgrade time name = true ↔
      ∃ key ∈ canonicalHost name, (latest (fun _ => none) rs).Covers time key) ∧
    ∀ rs', (new.run rs').entries.length ≤ capacity ∧
      ∀ r, ∀ key ∈ canonicalHost r.host, ((new.run rs').policies key).isSome →
        (new.run rs').Admits r → ∀ other ≠ key,
          ((new.run rs').receive r).policies other = (new.run rs').policies other := by
  obtain ⟨hlock, hp⟩ := policies_run hcap rfl (fun _ h => by cases h) hhosts hadm
  refine ⟨fun time name => ?_, fun rs' => ⟨length_run (zero_le _) rs', ?_⟩⟩
  · cases hkey : canonicalHost name with
    | none => simp [shouldUpgrade, hkey]
    | some key =>
      rw [shouldUpgrade_iff hlock hkey, hp]
      constructor
      · intro h
        exact ⟨key, rfl, h⟩
      · rintro ⟨_, hm, h⟩
        rwa [mem_some.mp hm]
  intro r key hkey hk hadm other hne
  cases hlock : (new.run rs').poisoned with
  | true => rw [receive_of_poisoned hlock]
  | false =>
    have hs := policies_receive hlock hadm fun key' hk' hnone => by
      obtain rfl : key = key' := some.inj (hkey.symm.trans hk')
      simp [hnone] at hk
    rw [hs.2]
    exact receive_of_ne _ fun h => hne (some.inj (h.symm.trans hkey))

def sampleReceptions : List Reception := [⟨0, ascii "example.com", yearHeaders⟩]

theorem run_exact_sample :
    (new.run sampleReceptions).shouldUpgrade 0 (ascii "www.example.com") = true ↔
      ∃ key ∈ canonicalHost (ascii "www.example.com"),
        (latest (fun _ => none) sampleReceptions).Covers 0 key :=
  (@run_exact sampleReceptions [ascii "example.com"] (by decide) (by decide)
    ⟨by unfold Admits; decide, trivial⟩).1 0 _

/-- A lifetime that cannot be represented takes the policy of another host. -/
theorem endless_lifetime_forgets :
    let rs := sampleReceptions ++ [⟨0, ascii "evil.test", endlessHeaders⟩]
    (latest (fun _ => none) rs).Covers 0 (ascii "example.com") ∧
      (new.run rs).shouldUpgrade 0 (ascii "example.com") = false :=
  ⟨.inl ⟨⟨true, 31536000 * 10 ^ 9⟩, rfl, by decide⟩, by decide⟩

end HstsStore

end Aioduct.Hsts
