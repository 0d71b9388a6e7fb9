import Aioduct.Pool.Key
import Mathlib.Data.List.Sigma

/-!
# Fallback over the targets of a proxy

`ProxyTargetTraversal` of `client/proxy_connect/policy.rs`: the pairs of addresses that a connection
through two hops is tried with, and what the failure of an attempt leaves out.
-/

namespace Aioduct.Client

open Wire Pool List

structure ProxyTargetAttempt where
  firstTargetAddr : Option SocketAddr
  secondTargetAddr : Option SocketAddr

inductive ProxyAttemptError where
  | fatal (error : Error)
  | adaptiveH2cRejected (error : Error)
  | firstProxyEndpoint (remoteAddr : SocketAddr) (source : Error)
  | localTarget (hop : Nat) (source : Error)

structure ProxyTargetTraversal where
  firstTargetAddrs : List (Option SocketAddr)
  secondTargetAddrs : List (Option SocketAddr)
  firstTargetIndex : Nat := 0
  secondTargetIndex : Nat := 0
  lastError : Option Error := none

/-- An entry of one of the lists, with its place there. -/
abbrev Entry := Option SocketAddr × Nat

namespace ProxyTargetTraversal

variable (self : ProxyTargetTraversal)

def recordFailure : ProxyAttemptError → Except Error ProxyTargetTraversal
  | .fatal error | .adaptiveH2cRejected error => .error error
  | .firstProxyEndpoint _ source => .error source
  | .localTarget hop source =>
    .ok { self with
      lastError := some source
      secondTargetIndex :=
        if hop = 0 then self.secondTargetAddrs.length else self.secondTargetIndex }

def intoExhaustedError : Error :=
  self.lastError.getD (.other (ascii "proxy target fallback exhausted"))

def next (self : ProxyTargetTraversal) : Option ProxyTargetAttempt × ProxyTargetTraversal :=
  if _ : self.firstTargetIndex < self.firstTargetAddrs.length then
    if _ : self.secondTargetIndex < self.secondTargetAddrs.length then
      (some ⟨self.firstTargetAddrs[self.firstTargetIndex],
        self.secondTargetAddrs[self.secondTargetIndex]⟩,
        { self with secondTargetIndex := self.secondTargetIndex + 1 })
    else next { self with firstTargetIndex := self.firstTargetIndex + 1, secondTargetIndex := 0 }
  else (none, self)
termination_by self.firstTargetAddrs.length - self.firstTargetIndex

/-- The entries of the attempt that was made last. -/
def entries (attempt : ProxyTargetAttempt) : Entry × Entry :=
  ((attempt.firstTargetAddr, self.firstTargetIndex),
    (attempt.secondTargetAddr, self.secondTargetIndex - 1))

/-- The pairs that are left of the current first entry. -/
def row : List (Entry × Entry) :=
  ((self.firstTargetAddrs.drop self.firstTargetIndex).take 1).zipIdx self.firstTargetIndex ×ˢ
    (self.secondTargetAddrs.drop self.secondTargetIndex).zipIdx self.secondTargetIndex

/-- The pairs of entries that are left. -/
def rest : List (Entry × Entry) :=
  self.row ++ (self.firstTargetAddrs.drop self.firstTargetIndex).tail.zipIdx
    (self.firstTargetIndex + 1) ×ˢ self.secondTargetAddrs.zipIdx

lemma rest_start (first second : List (Option SocketAddr)) :
    rest { firstTargetAddrs := first, secondTargetAddrs := second } =
      first.zipIdx ×ˢ second.zipIdx := by
  cases first <;> simp [rest, row]

lemma next_spec : self.next.1.map self.next.2.entries = self.rest.head? ∧
    self.next.2.rest = self.rest.tail ∧ self.next.2.lastError = self.lastError := by
  fun_induction next self with
  | case1 self hf hs =>
    simp [rest, row, entries, drop_eq_getElem_cons hf, drop_eq_getElem_cons hs, -getElem_cons_drop]
  | case2 self hf hs ih =>
    have heq : rest ⟨self.firstTargetAddrs, self.secondTargetAddrs, self.firstTargetIndex + 1, 0,
        self.lastError⟩ = self.rest := by
      simp only [rest, row, drop_eq_getElem_cons hf, drop_eq_nil_of_le (Nat.le_of_not_lt hs)]
      cases self.firstTargetAddrs.drop (self.firstTargetIndex + 1) <;> simp
    rwa [heq] at ih
  | case3 self hf => simp [rest, row, drop_eq_nil_of_le, Nat.le_of_not_lt hf]

/-- A failure at the first hop leaves out the pairs of the entry it is at. -/
lemma recordFailure_spec (hop : Nat) (source : Error) : ∃ row left,
    self.recordFailure (.localTarget hop source) = .ok left ∧ left.lastError = some source ∧
    self.rest = row ++ left.rest ∧ (∀ p ∈ row, p.1.2 = self.firstTargetIndex ∧ hop = 0) ∧
    ∀ p ∈ left.rest, ¬(p.1.2 = self.firstTargetIndex ∧ hop = 0) := by
  by_cases h : hop = 0
  · refine ⟨self.row, _, rfl, rfl, by simp [rest, row, h], fun p hp => ⟨?_, h⟩, fun p hp hi => ?_⟩
    · have hlt := snd_lt_add_of_mem_zipIdx (mem_product.mp hp).1
      have hle := le_snd_of_mem_zipIdx (mem_product.mp hp).1
      rw [length_take] at hlt
      omega
    · simp only [rest, row, h, if_true, drop_length, zipIdx_nil, product_nil, nil_append] at hp
      exact Nat.ne_of_gt (le_snd_of_mem_zipIdx (mem_product.mp hp).1) hi.1
  · exact ⟨[], _, rfl, rfl, by simp [rest, row, h], by simp [h]⟩

inductive Call where
  | next
  | recordFailure (error : ProxyAttemptError)

/-- A traversal with the pairs it has yielded and the failures that were recorded: the place of the
first entry, the hop and the error. -/
structure Trace where
  traversal : ProxyTargetTraversal
  tried : List (Entry × Entry) := []
  failures : List (Nat × Nat × Error) := []

namespace Trace

def call (s : Trace) : Call → Trace
  | .next =>
    { s with
      traversal := s.traversal.next.2
      tried := s.tried ++ (s.traversal.next.1.map s.traversal.next.2.entries).toList }
  | .recordFailure error =>
    match error, s.traversal.recordFailure error with
    | .localTarget hop source, .ok traversal =>
      { s with
        traversal
        failures := s.failures ++ [(s.traversal.firstTargetIndex, hop, source)] }
    | _, _ => s

def run (first second : List (Option SocketAddr)) (calls : List Call) : Trace :=
  calls.foldl call { traversal := { firstTargetAddrs := first, secondTargetAddrs := second } }

/-- The first entry at the place has failed at the first hop. -/
def Failed (s : Trace) (i : Nat) : Prop := ∃ source, (i, 0, source) ∈ s.failures

structure Sound (pairs : List (Entry × Entry)) (s : Trace) : Prop where
  ordered : s.tried ++ s.traversal.rest <+ pairs
  complete : ∀ p ∈ pairs, p ∈ s.tried ++ s.traversal.rest ∨ s.Failed p.1.2
  fresh : ∀ p ∈ s.traversal.rest, ¬s.Failed p.1.2
  lastError : s.traversal.lastError = s.failures.getLast?.map fun failure => failure.2.2

variable {s : Trace} {pairs : List (Entry × Entry)}

lemma Sound.next (h : s.Sound pairs) : (s.call .next).Sound pairs := by
  obtain ⟨hhead, htail, herr⟩ := s.traversal.next_spec
  have heq : (s.call .next).tried ++ (s.call .next).traversal.rest = s.tried ++ s.traversal.rest := by
    rw [call, hhead, htail, append_assoc]
    cases s.traversal.rest <;> rfl
  exact ⟨heq ▸ h.ordered, heq ▸ h.complete, fun p hp => h.fresh p (mem_of_mem_tail (htail ▸ hp)),
    herr.trans h.lastError⟩

lemma Sound.recordFailure (h : s.Sound pairs) (error : ProxyAttemptError) :
    (s.call (.recordFailure error)).Sound pairs := by
  cases error with
  | fatal | adaptiveH2cRejected | firstProxyEndpoint => exact h
  | localTarget hop source =>
    obtain ⟨row, left, heq, hlast, hrest, hrow, hleft⟩ := s.traversal.recordFailure_spec hop source
    have hmem : ∀ i, Failed ⟨left, s.tried, s.failures ++ [(s.traversal.firstTargetIndex, hop,
        source)]⟩ i ↔ s.Failed i ∨ i = s.traversal.firstTargetIndex ∧ hop = 0 := by
      intro i
      simp [Failed, exists_or, eq_comm]
    obtain ⟨hord, hcom, hfre, -⟩ := h
    rw [hrest] at hord hcom hfre
    simp only [call, heq]
    refine ⟨((sublist_append_right _ _).append_left _).trans hord, fun p hp => ?_, fun p hp hf => ?_,
      by simp [hlast]⟩
    · rw [hmem]
      have hm := hcom p hp
      simp only [mem_append] at hm ⊢
      rcases hm with (ht | hm | hl) | hf
      · exact .inl (.inl ht)
      · exact .inr (.inr (hrow p hm))
      · exact .inl (.inr hl)
      · exact .inr (.inl hf)
    · rcases (hmem _).mp hf with hf | hf
      · exact hfre p (mem_append_right _ hp) hf
      · exact hleft p hp hf

lemma sound_run (first second : List (Option SocketAddr)) (calls : List Call) :
    (run first second calls).Sound (first.zipIdx ×ˢ second.zipIdx) := by
  refine foldlRecOn calls call ?_ fun s h action _ => ?_
  · refine ⟨?_, fun p hp => .inl ?_, fun p hp => by simp [Failed], rfl⟩
    · rw [rest_start, nil_append]
    · rwa [rest_start, nil_append]
  · cases action with
    | next => exact h.next
    | recordFailure error => exact h.recordFailure error

/-- Whatever failures are recorded between the attempts, the pairs of entries are tried in
lexicographic order and each at most once, none after its first entry has failed at the first hop,
and at the end all others were tried and the error is that of the last failure. -/
theorem traversal_exhaustive (first second : List (Option SocketAddr)) (calls : List Call) :
    let s := run first second calls
    let next := s.traversal.next
    s.tried <+ first.zipIdx ×ˢ second.zipIdx ∧ s.tried.Nodup ∧
      s.tried.length ≤ first.length * second.length ∧
      (∀ attempt ∈ next.1, ¬s.Failed (next.2.entries attempt).1.2) ∧
      (next.1 = none → ∀ p ∈ first.zipIdx ×ˢ second.zipIdx, p ∈ s.tried ∨ s.Failed p.1.2) ∧
      s.traversal.intoExhaustedError = (s.failures.getLast?.map fun failure => failure.2.2).getD
        (.other (ascii "proxy target fallback exhausted")) := by
  intro s next
  obtain ⟨hord, hcom, hfre, hlast⟩ : s.Sound _ := sound_run first second calls
  have hhead := s.traversal.next_spec.1
  have hle := (sublist_append_left _ _).trans hord
  refine ⟨hle, hle.nodup ((nodup_zipIdx_map_snd _).of_map.product (nodup_zipIdx_map_snd _).of_map),
    by simpa [length_product] using hle.length_le, fun attempt ha => ?_, fun hnone p hp => ?_, ?_⟩
  · rw [Option.mem_def.mp ha] at hhead
    exact hfre _ (mem_of_head? hhead.symm)
  · rw [show next.1 = none from hnone] at hhead
    rw [head?_eq_none_iff.mp hhead.symm, append_nil] at hcom
    exact hcom p hp
  · rw [intoExhaustedError, hlast]

/-- The entries are told apart by their places only: an address that stands twice in a list is tried
again after it has failed at the first hop. -/
theorem repeated_address_tried_again :
    let addr := some ⟨.v4 [10, 0, 0, 1], 443⟩
    let s := run [addr, addr] [none] [.next, .recordFailure (.localTarget 0 (.other [])), .next]
    s.Failed 0 ∧ s.tried = [((addr, 0), (none, 0)), ((addr, 1), (none, 0))] := by
  simp [run, call, next, recordFailure, entries, Failed]

end Trace

end ProxyTargetTraversal

end Aioduct.Client
