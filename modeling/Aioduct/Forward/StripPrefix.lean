import Aioduct.Forward.DispatchPlan

/-!
# Removing a path prefix

The path that `rewrite_for_upstream` makes, segment by segment.
-/

namespace Aioduct.Forward.ForwardRewrite

open Wire Http List InboundRequestTarget Option

def segments (path : Bytes) : List Bytes := path.tail.splitOn (byte '/')

/-- The segments that are left when the configured start of a path is removed, which is done at the
end of a segment only. -/
def remaining (stripPrefix : Option Bytes) (path : Bytes) : List Bytes :=
  match stripPrefix with
  | none => segments path
  | some start =>
    match path.dropPrefix? start with
    | none => segments path
    | some rest =>
      if start.getLast? = some (byte '/') then rest.splitOn (byte '/')
      else if rest = [] ∨ rest.head? = some (byte '/') then segments rest
      else segments path

def inboundPath (uri : Uri) (isServerWideOptions : Bool) : Bytes :=
  if isServerWideOptions || uri.path.isEmpty then ascii "/" else uri.path

def forwardedPath (rewrite : ForwardRewrite) (uri : Uri) (isServerWideOptions : Bool) : Bytes :=
  rewrite.upstream.path.rdropWhile (· == byte '/') ++
    (remaining rewrite.stripPrefix (inboundPath uri isServerWideOptions)).flatMap (byte '/' :: ·) ++
    uri.query.elim [] (byte '?' :: ·)

lemma flatMap_splitOn (s : Bytes) :
    (s.splitOn (byte '/')).flatMap (byte '/' :: ·) = byte '/' :: s := by
  rw [← cons_intercalate (splitOn_ne_nil _ _), intercalate_splitOn]

lemma flatMap_segments {path : Bytes} (h : path.head? = some (byte '/')) :
    (segments path).flatMap (byte '/' :: ·) = path := by
  obtain ⟨rest, rfl⟩ := head?_eq_some_iff.mp h
  exact flatMap_splitOn rest

theorem strips_segments_iff (rewrite : ForwardRewrite) (uri : Uri) (isServerWideOptions : Bool)
    (hp : (inboundPath uri isServerWideOptions).head? = some (byte '/')) :
    rewrite.rewrittenPath uri isServerWideOptions =
        rewrite.forwardedPath uri isServerWideOptions ↔
      ∀ start ∈ rewrite.stripPrefix, ∀ rest, inboundPath uri isServerWideOptions = start ++ rest →
        if start.getLast? = some (byte '/') then rest.head? ≠ some (byte '/')
        else rest = [] ∨ rest.head? = some (byte '/') := by
  have hq : rewrite.rewrittenPath uri isServerWideOptions =
      rewrite.upstream.path.rdropWhile (· == byte '/') ++
        rewrite.pathAfterStrip (inboundPath uri isServerWideOptions) ++
        uri.query.elim [] (byte '?' :: ·) := by
    unfold rewrittenPath inboundPath
    cases uri.query <;> simp
  rw [hq, forwardedPath, append_left_inj, append_right_inj]
  unfold pathAfterStrip remaining
  generalize inboundPath uri isServerWideOptions = path at hp
  have hw := flatMap_segments hp
  cases rewrite.stripPrefix with
  | none => simp [hw]
  | some start =>
    cases hd : path.dropPrefix? start with
    | none =>
      have hn := dropPrefix?_eq_none.mp hd
      simp only [hd, getD_none, hw, startsWithSlash, hp, beq_self_eq_true,
        if_true, mem_some_iff, forall_eq', true_iff]
      intro rest h
      exact absurd ⟨rest, h.symm⟩ hn
    | some rest =>
      obtain rfl := dropPrefix?_eq_some.mp hd
      simp only [hd, getD_some, mem_some_iff, forall_eq', append_right_inj,
        startsWithSlash, beq_iff_eq]
      split_ifs with hs he hr he hr
      · -- A slash that belongs to the rest is taken for the one that was removed.
        simp [flatMap_splitOn, hs]
      · simp [flatMap_segments hs, hs]
      · exact absurd (.inr hs) hr
      · simp [flatMap_splitOn, hs]
      · obtain rfl := hr.resolve_right hs
        exact iff_of_true rfl (.inl rfl)
      · rw [hw]
        refine iff_of_false (fun h => he ?_) hr
        obtain rfl : [byte '/'] = start := (append_left_inj rest).mp h
        rfl

def stripping (start : String) : ForwardRewrite where
  upstream := { path := ascii "/v1/" }
  stripPrefix := some (ascii start)
  preserveHost := false
  forwardHeaders := []
  extraHeaders := ⟨[]⟩
  removeHeaders := []

theorem strips_tenant : (stripping "/api").rewrittenPath { path := ascii "/api/x" } false =
    (stripping "/api").forwardedPath { path := ascii "/api/x" } false := by
  refine (strips_segments_iff _ _ _ rfl).mpr ?_
  rintro _ ⟨⟩ rest h
  obtain rfl : ascii "/x" = rest := (append_right_inj (ascii "/api")).mp h
  decide

theorem strips_inside_segment : (stripping "/api").rewrittenPath { path := ascii "/apiary" } false ≠
    (stripping "/api").forwardedPath { path := ascii "/apiary" } false := by
  decide

end Aioduct.Forward.ForwardRewrite
