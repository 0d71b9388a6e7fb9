import Aioduct.DigestAlgorithm

/-!
# Nonce counts over runs

Runs of `authorize_prepared` on one `DigestAuth`. The lock makes each call one step, so that any
interleaving of callers is a list of calls.
-/

namespace Aioduct.Digest

open Wire Http List Option Assoc UInt8

structure Answered where
  value : HeaderValue
  nonce : Bytes
  count : UInt32

structure Call where
  challenge : PreparedDigestChallenge
  method : Method
  uri : Uri
  cnonce : Bytes

variable (self : DigestAuth)

def countOf (counts : NonceCounts) (nonce : Bytes) : UInt32 :=
  nextCount ((Assoc.get (evictCounts counts.length counts) nonce).getD 0)

namespace Call

def nonce (call : Call) : Option Bytes := Assoc.get call.challenge.params (ascii "nonce")

def answer (call : Call) (count : UInt32) : Option HeaderValue :=
  self.authorizationValue call.method call.uri call.challenge (hex32 count) call.cnonce

def step (counts : NonceCounts) (call : Call) : Option Answered × NonceCounts :=
  let after := authorizePrepared self counts call.cnonce call.method call.uri call.challenge
  (after.1.bind fun value => call.nonce.map fun nonce => ⟨value, nonce, countOf counts nonce⟩,
    after.2)

end Call

def answers : NonceCounts → List Call → List Answered
  | _, [] => []
  | counts, call :: calls =>
    (call.step self counts).1.toList ++ answers (call.step self counts).2 calls

variable {self} {counts : NonceCounts} {call : Call} {calls : List Call} {nonces : List Bytes}

lemma step_of_answer {nonce : Bytes} {value : HeaderValue} (hn : call.nonce = some nonce)
    (h : call.answer self (countOf counts nonce) = some value) :
    call.step self counts = (some ⟨value, nonce, countOf counts nonce⟩,
      Assoc.replaceOrAppend (evictCounts counts.length counts) nonce (countOf counts nonce)) := by
  unfold Call.answer Call.nonce countOf at *
  simp [Call.step, Call.nonce, authorizePrepared, hn, h, countOf]

lemma evictCounts_of_le (h : counts.length ≤ 64) (fuel : Nat) : evictCounts fuel counts = counts := by
  cases fuel with
  | zero => rfl
  | succ fuel => rw [evictCounts, if_neg (Nat.not_lt.mpr h)]

lemma step_cases (hlen : counts.length ≤ 64) :
    call.step self counts = (none, counts) ∨ ∃ nonce value, call.nonce = some nonce ∧
      call.answer self (countOf counts nonce) = some value ∧
      call.step self counts = (some ⟨value, nonce, countOf counts nonce⟩,
        Assoc.replaceOrAppend counts nonce (countOf counts nonce)) := by
  cases hn : call.nonce with
  | none =>
    unfold Call.nonce at hn
    simp [Call.step, authorizePrepared, hn]
  | some nonce =>
    cases h : call.answer self (countOf counts nonce) with
    | none =>
      unfold Call.answer Call.nonce countOf at *
      rw [evictCounts_of_le hlen] at h
      simp [Call.step, authorizePrepared, hn, h, evictCounts_of_le hlen]
    | some value =>
      refine .inr ⟨nonce, value, rfl, h, ?_⟩
      rw [step_of_answer hn h, evictCounts_of_le hlen]

lemma toNat_nextCount {count : UInt32} (h : count.toNat + 1 < 2 ^ 32) :
    (nextCount count).toNat = count.toNat + 1 := by
  rw [nextCount, if_pos h, UInt32.toNat_add]
  exact Nat.mod_eq_of_lt h

def used (counts : NonceCounts) (nonce : Bytes) : Nat := ((Assoc.get counts nonce).getD 0).toNat

lemma answers_spec (hn : nonces.length ≤ 64) (hnd : (Assoc.keys counts).Nodup)
    (hs : Assoc.keys counts ⊆ nonces) (hc : ∀ call ∈ calls, ∀ nonce ∈ call.nonce, nonce ∈ nonces)
    (hr : ∀ nonce, used counts nonce + calls.countP (·.nonce = some nonce) < 2 ^ 32) :
    (answers self counts calls).Pairwise (fun a b => a.nonce = b.nonce → a.count < b.count) ∧
      ∀ a ∈ answers self counts calls, used counts a.nonce < a.count.toNat ∧
        ∃ call ∈ calls, call.nonce = some a.nonce ∧ call.answer self a.count = some a.value := by
  induction calls generalizing counts with
  | nil => simp [answers]
  | cons call calls ih =>
    obtain ⟨hca, hcal⟩ := forall_mem_cons.mp hc
    have hlen : counts.length ≤ 64 := by
      have := (hnd.subperm hs).length_le
      simp only [Assoc.keys, length_map] at this
      omega
    rcases @step_cases self counts call hlen with hste | ⟨nonce, value, hcn, hans, hste⟩
    · simp only [answers, hste, toList_none, nil_append]
      obtain ⟨hp, hm⟩ := ih hnd hs hcal fun nonce => by
        have := hr nonce
        rw [countP_cons] at this
        omega
      refine ⟨hp, fun a ha => ?_⟩
      obtain ⟨hlt, call', hc', h⟩ := hm a ha
      exact ⟨hlt, call', mem_cons_of_mem _ hc', h⟩
    have hr' := hr nonce
    rw [countP_cons_of_pos (by simpa using hcn)] at hr'
    have hcou : (countOf counts nonce).toNat = used counts nonce + 1 := by
      rw [countOf, evictCounts_of_le hlen]
      exact toNat_nextCount (by unfold used at hr'; omega)
    have hu : ∀ other, used (replaceOrAppend counts nonce (countOf counts nonce)) other =
        used counts other + if other = nonce then 1 else 0 := by
      intro other
      by_cases ho : other = nonce
      · rw [ho, used, get_replaceOrAppend_self, if_pos rfl, ← hcou]
        rfl
      · rw [used, get_replaceOrAppend_of_ne _ ho, if_neg ho]
        rfl
    obtain ⟨hp, hm⟩ := ih (nodup_keys_replaceOrAppend hnd nonce _)
      (fun key hk => by
        rw [keys_replaceOrAppend] at hk
        split at hk
        · exact hs hk
        · rcases mem_append.mp hk with hk | hk
          · exact hs hk
          · exact mem_singleton.mp hk ▸ hca nonce hcn) hcal
      (fun other => by
        have := hr other
        rw [countP_cons] at this
        rw [hu]
        by_cases ho : other = nonce <;> simp_all <;> omega)
    simp only [answers, hste, toList_some, singleton_append, pairwise_cons, forall_mem_cons]
    refine ⟨⟨fun a ha hna => ?_, hp⟩, ⟨by omega, call, mem_cons_self, hcn, hans⟩, fun a ha => ?_⟩
    · have hlt := (hm a ha).1
      rw [hu, ← hna, if_pos rfl] at hlt
      exact UInt32.lt_iff_toNat_lt.mpr (by omega)
    · obtain ⟨hlt, call', hc', h⟩ := hm a ha
      rw [hu] at hlt
      exact ⟨by omega, call', mem_cons_of_mem _ hc', h⟩

/-- Of at most 64 nonces, each used less than `2 ^ 32` times, no answer repeats a count. -/
theorem counts_increase (self : DigestAuth) {nonces : List Bytes} (hn : nonces.length ≤ 64)
    {calls : List Call} (hc : ∀ call ∈ calls, ∀ nonce ∈ call.nonce, nonce ∈ nonces)
    (hfew : ∀ nonce, calls.countP (·.nonce = some nonce) < 2 ^ 32) :
    (answers self [] calls).Pairwise (fun a b => a.nonce = b.nonce → a.count < b.count) ∧
      ∀ a ∈ answers self [] calls, ∃ call ∈ calls, call.nonce = some a.nonce ∧
        call.answer self a.count = some a.value := by
  obtain ⟨hp, hm⟩ := @answers_spec self [] calls nonces hn nodup_nil (by simp) hc
    fun nonce => (Nat.zero_add _).trans_lt (hfew nonce)
  exact ⟨hp, fun a ha => (hm a ha).2⟩

def nonceCall (n : Nat) : Call where
  challenge := ⟨[(ascii "realm", ascii "r"), (ascii "nonce", [UInt8.ofNat (48 + n)]),
    (ascii "qop", ascii "auth")]⟩
  method := .get
  uri := ⟨none, none, ascii "/", none, none⟩
  cnonce := ascii "00000000deadbeef"

def sampleAuth : DigestAuth := ⟨ascii "user", ascii "secret"⟩

theorem counts_increase_twice :
    (answers sampleAuth [] [nonceCall 0, nonceCall 0]).Pairwise fun a b =>
      a.nonce = b.nonce → a.count < b.count :=
  (@counts_increase sampleAuth [[48]] (by decide) [nonceCall 0, nonceCall 0] (by decide)
    fun _ => countP_le_length.trans_lt (by decide)).1

lemma exists_answer {n : Nat} (hn : n < 65) (count : UInt32) :
    ∃ value, (nonceCall n).answer sampleAuth count = some value := by
  have hf : ∀ n < 65, Visible (Inputs.front ⟨sampleAuth, .get, ascii "/", ascii "r",
      [ofNat (48 + n)], [], []⟩) := by decide
  have hb : ∀ text ∈ ["\"", ", qop=auth, nc=", ", ", "cnonce", "=\"", "00000000deadbeef"],
      Visible (ascii text) := by decide
  simp only [forall_mem_cons] at hb
  unfold Call.answer
  rw [authorizationValue_eq]
  refine (HeaderValue.fromStr_of_visible ?_).imp fun value h => h.1
  refine (visible_append _ _).mpr
    ⟨(visible_append _ _).mpr ⟨hf n hn, visible_hex (Md5.compute _)⟩, ?_⟩
  change Visible (ascii "\"" ++ (ascii ", qop=auth, nc=" ++ hex32 count ++ ascii ", " ++
    quoted (ascii "cnonce") (ascii "00000000deadbeef")) ++ [] ++ [])
  simp [quoted, hex32, visible_hex, hb]

/-- The counts alone of a run in which every call is answered. -/
def pairs : NonceCounts → List Bytes → List (Bytes × UInt32)
  | _, [] => []
  | counts, nonce :: nonces =>
    (nonce, countOf counts nonce) :: pairs (Assoc.replaceOrAppend
      (evictCounts counts.length counts) nonce (countOf counts nonce)) nonces

lemma map_answers {ns : List Nat} (h : ∀ n ∈ ns, n < 65) (counts : NonceCounts) :
    (answers sampleAuth counts (ns.map nonceCall)).map (fun a => (a.nonce, a.count)) =
      pairs counts (ns.map fun n => [UInt8.ofNat (48 + n)]) := by
  induction ns generalizing counts with
  | nil => rfl
  | cons n ns ih =>
    obtain ⟨hn, hns⟩ := forall_mem_cons.mp h
    obtain ⟨value, hv⟩ := exists_answer hn (countOf counts [ofNat (48 + n)])
    have hs := step_of_answer (show (nonceCall n).nonce = some [ofNat (48 + n)] from rfl) hv
    simp [answers, hs, pairs, ih hns]

/-- One nonce is used once and 64 others twice, so that its count is dropped when it comes back. -/
def crowded : List Nat := 0 :: ((range 64).flatMap fun n => [n + 1, n + 1]) ++ [0]

theorem evicted_count_reused :
    ¬(answers sampleAuth [] (crowded.map nonceCall)).Pairwise fun a b =>
      (a.nonce, a.count) ≠ (b.nonce, b.count) := by
  have hp : ¬(pairs [] (crowded.map fun n => [ofNat (48 + n)])).Pairwise (· ≠ ·) := by
    decide +kernel
  rw [← map_answers (by decide +kernel)] at hp
  exact fun h => hp (pairwise_map.mpr h)

end Aioduct.Digest
