import Aioduct.Forward.Response

/-!
# The body of a forwarded response

A body that ends without an error has the length that was expected of it, and its trailers are
those that the rules of the head let pass.
-/

namespace Aioduct.Forward

open Wire Http MessageFraming Option ResponseBodyPolicy Nat

variable {counter' : BodyLengthValidator} {count n : Nat} {context : Bytes}
  {body' rest : SanitizedForwardResponseBody}

def dataLength : List Frame → Nat
  | [] => 0
  | .data bytes :: frames => bytes.length + dataLength frames
  | .trailers _ :: frames => dataLength frames

lemma dataLength_append (frames frames' : List Frame) :
    dataLength (frames ++ frames') = dataLength frames + dataLength frames' := by
  induction frames with
  | nil => simp [dataLength]
  | cons frame frames ih => cases frame <;> simp [dataLength, ih, add_assoc]

def Expects (expected : Option UInt64) (total : Nat) : Prop :=
  ∀ length, expected = some length → length.toNat = total

variable {total : Nat} {counter : BodyLengthValidator}

/-- The counter has seen so many bytes, and all of them once it has finished. -/
structure Counted (counter : BodyLengthValidator) (total : Nat) : Prop where
  seen : counter.seen = total
  finished : counter.finished = true → Expects counter.expected total

lemma Counted.record
    (hc : Counted counter total) (h : counter.record count context = .ok counter') :
    Counted counter' (total + count) ∧ counter'.expected = counter.expected := by
  obtain ⟨rfl, hf⟩ := hc
  unfold BodyLengthValidator.record at h
  split_ifs at h
  split at h
  next expected he =>
    split_ifs at h
    cases h
    refine ⟨⟨rfl, fun hd => ?_⟩, rfl⟩
    -- after the end only empty frames are left
    rintro length hlen
    have hall := hf hd length hlen
    obtain rfl : expected = length := some.inj (he.symm.trans hlen)
    omega
  rename_i he
  cases h
  refine ⟨⟨rfl, fun _ length hlen => ?_⟩, rfl⟩
  simp [he] at hlen

lemma Counted.finish
    (hc : Counted counter total) (h : counter.finish context = .ok counter') :
    Counted counter' total ∧ counter'.expected = counter.expected ∧
      Expects counter.expected total := by
  obtain ⟨rfl, hf⟩ := hc
  unfold BodyLengthValidator.finish at h
  split at h
  next hd =>
    cases h
    exact ⟨⟨rfl, hf⟩, rfl, hf hd⟩
  have he : Expects counter.expected counter.seen ∧
      counter' = { counter with finished := true } := by
    split at h
    next expected hexp =>
      split_ifs at h with hs
      refine ⟨fun length hlen => ?_, (Except.ok.inj h).symm⟩
      obtain rfl : expected = length := some.inj (hexp.symm.trans hlen)
      exact (not_not.mp hs).symm
    next hexp =>
      refine ⟨fun length hlen => ?_, (Except.ok.inj h).symm⟩
      simp [hexp] at hlen
  obtain ⟨he, rfl⟩ := he
  exact ⟨⟨rfl, fun _ => he⟩, rfl, he⟩

lemma Counted.isEndStream {innerIsEndStream : Bool} (hc : Counted counter total)
    (h : counter.isEndStream innerIsEndStream) : Expects counter.expected total := by
  rcases Bool.or_eq_true_iff.mp h with hd | hi
  · exact hc.finished hd
  · rw [← hc.seen]
    intro length hlen
    simpa [hlen] using (Bool.and_eq_true_iff.mp hi).2

namespace ResponseBodyPolicy

/-- The rules are the same; only the counter has moved on. -/
def SameRules (self other : ResponseBodyPolicy) : Prop :=
  other.trailers = self.trailers ∧ other.bodyLength.expected = self.bodyLength.expected

def Passes (self : ResponseBodyPolicy) (fields : HeaderMap) : Prop :=
  ∃ received, self.trailers.sanitizeTrailers received = .ok (some fields)

variable {policy policy' : ResponseBodyPolicy}

lemma SameRules.trans {policy'' : ResponseBodyPolicy} (h : policy.SameRules policy')
    (h' : policy'.SameRules policy'') : policy.SameRules policy'' :=
  ⟨h'.1.trans h.1, h'.2.trans h.2⟩

lemma SameRules.passes (h : policy.SameRules policy') {fields : HeaderMap}
    (hp : policy'.Passes fields) : policy.Passes fields := by
  unfold Passes at hp ⊢
  rwa [h.1] at hp

lemma finish_counted (hcou : Counted policy.bodyLength total)
    (h : policy.finish = .ok policy') :
    Counted policy'.bodyLength total ∧ policy.SameRules policy' ∧
      Expects policy.bodyLength.expected total := by
  unfold finish at h
  rw [bind_eq_ok] at h
  obtain ⟨counter, hf, h⟩ := h
  cases h
  obtain ⟨hc, hs, he⟩ := hcou.finish hf
  exact ⟨hc, ⟨rfl, hs⟩, he⟩

lemma sanitizeFrame_counted {frame : Frame} {kept : Option Frame}
    (hcou : Counted policy.bodyLength total)
    (h : policy.sanitizeFrame frame = .ok (policy', kept)) :
    Counted policy'.bodyLength (total + dataLength kept.toList) ∧ policy.SameRules policy' ∧
      ∀ fields, kept = some (.trailers fields) → policy.Passes fields := by
  cases frame with
  | data bytes =>
    simp only [sanitizeFrame, sanitizeData] at h
    split at h
    · rw [bind_eq_ok] at h
      obtain ⟨counter, hr, h⟩ := h
      cases h
      obtain ⟨hc, hs⟩ := hcou.record hr
      refine ⟨hc, ⟨rfl, hs⟩, fun fields hf => ?_⟩
      cases hf
    · cases h
  | trailers received =>
    simp only [sanitizeFrame, bind_eq_ok] at h
    obtain ⟨finished, hfin, kept', ht, h⟩ := h
    cases h
    obtain ⟨hc, hs, -⟩ := finish_counted hcou hfin
    cases kept' with
    | none =>
      refine ⟨hc, hs, fun fields hf => ?_⟩
      cases hf
    | some fields' =>
      refine ⟨hc, hs, fun fields hf => ?_⟩
      obtain rfl : fields' = fields := Frame.trailers.inj (some.inj hf)
      exact ⟨received, ht⟩

end ResponseBodyPolicy

namespace SanitizedForwardResponseBody

/-- So many bytes were handed on, and all of them once nothing is left. -/
structure Delivered (body : SanitizedForwardResponseBody) (total : Nat) : Prop where
  counted : Counted body.policy.bodyLength total
  ended : body.inner = none → Expects body.policy.bodyLength.expected total

variable {body : SanitizedForwardResponseBody} {items : List (Except Error Frame)}
  {policy : ResponseBodyPolicy} {frame : Frame}

lemma pollInner_frame (hcou : Counted policy.bodyLength total)
    (h : pollInner policy items = (some (.ok frame), body)) :
    body.Delivered (total + dataLength [frame]) ∧ policy.SameRules body.policy ∧
      ∀ fields, frame = .trailers fields → policy.Passes fields := by
  induction items generalizing policy with
  | nil =>
    unfold pollInner at h
    split at h <;> cases h
  | cons item rest ih =>
    unfold pollInner at h
    cases item with
    | error error => cases h
    | ok received =>
      dsimp only at h
      split at h
      next policy' frame' hfra =>
        obtain ⟨hc, hs, hp⟩ := sanitizeFrame_counted hcou hfra
        cases h
        refine ⟨⟨hc, fun hnone => ?_⟩, hs, fun fields hf => ?_⟩
        · cases hnone
        · exact hp fields (congrArg some hf)
      · -- trailers of which nothing is left are skipped
        rename_i policy' hfra
        obtain ⟨hc, hs, -⟩ := sanitizeFrame_counted hcou hfra
        obtain ⟨hd, hr, hp⟩ := ih hc h
        exact ⟨hd, hs.trans hr, fun fields hf =>
          hs.passes (hp fields hf)⟩
      · cases h

lemma pollInner_none (hc : Counted policy.bodyLength total)
    (h : pollInner policy items = (none, body)) : Expects policy.bodyLength.expected total := by
  induction items generalizing policy with
  | nil =>
    unfold pollInner at h
    split at h
    next policy' hf =>
      exact (finish_counted hc hf).2.2
    · cases h
  | cons item rest ih =>
    unfold pollInner at h
    cases item with
    | error error => cases h
    | ok received =>
      dsimp only at h
      split at h
      · cases h
      next policy' hfra =>
        obtain ⟨hcou, hs, -⟩ := sanitizeFrame_counted hc hfra
        rw [← hs.2]
        exact ih hcou h
      · cases h

lemma Delivered.pollFrame
    (hd : body.Delivered total) (h : body.pollFrame = (some (.ok frame), body')) :
    body'.Delivered (total + dataLength [frame]) ∧ body.policy.SameRules body'.policy ∧
      ∀ fields, frame = .trailers fields → body.policy.Passes fields := by
  unfold SanitizedForwardResponseBody.pollFrame at h
  split at h
  · cases h
  · exact pollInner_frame hd.counted h

lemma Delivered.atEnd (hd : body.Delivered total) (h : body.atEnd) :
    Expects body.policy.bodyLength.expected total := by
  cases hi : body.inner with
  | none => exact hd.ended hi
  | some items =>
    rcases Bool.or_eq_true_iff.mp h with he | hp
    · simp only [isEndStream, hi] at he
      exact hd.counted.isEndStream he
    · simp only [SanitizedForwardResponseBody.pollFrame, hi, beq_iff_eq] at hp
      exact pollInner_none hd.counted (Prod.ext hp rfl)

lemma Delivered.read {frames : List Frame}
    (hd : body.Delivered total) (h : body.read n = some (frames, rest)) :
    rest.Delivered (total + dataLength frames) ∧ body.policy.SameRules rest.policy ∧
      ∀ fields, .trailers fields ∈ frames → body.policy.Passes fields := by
  induction n generalizing body frames total with
  | zero =>
    cases h
    exact ⟨hd, ⟨rfl, rfl⟩, fun fields hf => absurd hf List.not_mem_nil⟩
  | succ n ih =>
    unfold SanitizedForwardResponseBody.read at h
    split at h
    next frame body' hpol =>
      obtain ⟨⟨frames', rest'⟩, hrea, h⟩ := map_eq_some_iff.mp h
      cases h
      obtain ⟨hn, hs, hp⟩ := hd.pollFrame hpol
      obtain ⟨hres, hr, hm⟩ := ih hn hrea
      refine ⟨?_, hs.trans hr, fun fields hf => ?_⟩
      · rwa [add_assoc, ← dataLength_append] at hres
      · rcases List.mem_cons.mp hf with hfra | hf
        · exact hp fields hfra.symm
        · exact hs.passes (hm fields hf)
    · cases h

def Stopped (self : SanitizedForwardResponseBody) : Prop :=
  self.atEnd = true ∨ ∃ error, self.pollFrame.1 = some (.error error)

lemma pollInner_shrinks (h : pollInner policy items = (some (.ok frame), body)) :
    ∃ rest, body.inner = some rest ∧ rest.length < items.length := by
  induction items generalizing policy with
  | nil =>
    unfold pollInner at h
    split at h <;> cases h
  | cons item items ih =>
    unfold pollInner at h
    cases item with
    | error error => cases h
    | ok received =>
      dsimp only at h
      split at h
      · cases h
        exact ⟨items, rfl, lt_succ_self _⟩
      · obtain ⟨rest, hr, hlt⟩ := ih h
        exact ⟨rest, hr, lt_succ_of_lt hlt⟩
      · cases h

lemma exists_stopped (body : SanitizedForwardResponseBody) :
    ∃ n frames rest, body.read n = some (frames, rest) ∧ rest.Stopped := by
  cases hinn : body.inner with
  | none =>
    refine ⟨0, [], body, rfl, Or.inl ?_⟩
    simp [atEnd, isEndStream, hinn]
  | some items =>
    induction hlen : items.length using Nat.strong_induction_on generalizing body items with
    | _ length ih =>
      cases hp : body.pollFrame with
      | mk item body' =>
        cases item with
        | none =>
          refine ⟨0, [], body, rfl, Or.inl ?_⟩
          simp [atEnd, hp]
        | some item =>
          cases item with
          | error error => exact ⟨0, [], body, rfl, Or.inr ⟨error, by rw [hp]⟩⟩
          | ok frame =>
            have hi : pollInner body.policy items = (some (.ok frame), body') := by
              simpa [pollFrame, hinn] using hp
            obtain ⟨rest, hr, hlt⟩ := pollInner_shrinks hi
            obtain ⟨n, frames, last, hrea, hs⟩ :=
              ih rest.length (hlen ▸ hlt) body' rest hr rfl
            refine ⟨n + 1, frame :: frames, last, ?_, hs⟩
            simp [read, hp, hrea]

end SanitizedForwardResponseBody

end Aioduct.Forward
