import Aioduct.Http.Uri

/-!
# Plain URIs

A small library of URIs: `http` and `https` with a lower-case host name, absolute paths, and the
asterisk.
-/

namespace Aioduct.Http.PlainUri

open Wire Except

def isHostByte (b : UInt8) : Bool := isLowercase b || isDigit b || b == byte '.'

def parseAuthority (s : Bytes) : Except Bytes Authority :=
  if !s.isEmpty && s.all isHostByte then .ok ⟨s, s, none⟩
  else .error (ascii "invalid authority")

def parsePathAndQuery (s : Bytes) : Except Bytes PathAndQuery :=
  if s.head? = some (byte '/') || s = ascii "*" then .ok ⟨s⟩
  else .error (ascii "invalid path")

def withPath (scheme : Option Bytes) (authority : Option Authority) (p : PathAndQuery) : Uri :=
  let cut := splitOnce (ascii "?") p.text
  { scheme := scheme
    authority := authority
    path := (cut.map Prod.fst).getD p.text
    query := cut.map Prod.snd
    pathAndQuery := some p }

def fromParts (scheme : Option Bytes) (authority : Option Authority) (p : Option PathAndQuery) :
    Except Bytes Uri :=
  match scheme, authority, p with
  | some _, some _, some p =>
    if p.text.head? = some (byte '/') || p.text = ascii "*" then .ok (withPath scheme authority p)
    else .error (ascii "invalid path")
  | none, some _, none => .ok { authority := authority, path := [] }
  | _, _, _ => .error (ascii "invalid URI parts")

def parseUri (s : Bytes) : Except Bytes Uri :=
  match s.dropPrefix? (ascii "http://"), s.dropPrefix? (ascii "https://") with
  | some rest, _ => (parseAuthority rest).map fun a =>
      withPath (some (ascii "http")) (some a) ⟨ascii "/"⟩
  | none, some rest => (parseAuthority rest).map fun a =>
      withPath (some (ascii "https")) (some a) ⟨ascii "/"⟩
  | none, none =>
    if s.head? = some (byte '/') || s = ascii "*" then .ok (withPath none none ⟨s⟩)
    else (parseAuthority s).map fun a => { authority := some a, path := [] }

variable {s : Bytes}

lemma parseAuthority_eq_ok {a : Authority} (h : parseAuthority s = .ok a) :
    s.all isHostByte ∧ a = ⟨s, s, none⟩ := by
  unfold parseAuthority at h
  split at h
  next hs =>
    simp only [Bool.and_eq_true] at hs
    exact ⟨hs.2, (ok.inj h).symm⟩
  · cases h

lemma map_eq_ok {α β : Type} {x : Except Bytes α} {f : α → β} {b : β} (h : x.map f = .ok b) :
    ∃ a, x = .ok a ∧ b = f a := by
  cases x with
  | error e => cases h
  | ok a => exact ⟨a, rfl, (ok.inj h).symm⟩

lemma fromParts_eq_ok {scheme : Option Bytes} {authority : Option Authority}
    {p : Option PathAndQuery} {u : Uri} (h : fromParts scheme authority p = .ok u) :
    (∃ q, p = some q ∧ (q.text.head? = some (byte '/') ∨ q.text = ascii "*") ∧
        u = withPath scheme authority q) ∨
      (scheme = none ∧ p = none ∧ u = { authority := authority, path := [] }) := by
  unfold fromParts at h
  split at h
  next q =>
    split at h
    next hq =>
      simp only [Bool.or_eq_true, decide_eq_true_eq] at hq
      exact Or.inl ⟨q, rfl, hq, (ok.inj h).symm⟩
    · cases h
  · exact Or.inr ⟨rfl, rfl, (ok.inj h).symm⟩
  · cases h

lemma dropPrefix?_scheme (h : s.head? ≠ some (byte 'h')) (rest : Bytes) :
    s.dropPrefix? (byte 'h' :: rest) = none := by
  rw [Option.eq_none_iff_forall_ne_some]
  intro t ht
  rw [dropPrefix?_eq_some] at ht
  exact h (by rw [ht]; rfl)

lemma parseUri_relative (h : s.head? ≠ some (byte 'h')) :
    parseUri s = if s.head? = some (byte '/') || s = ascii "*" then .ok (withPath none none ⟨s⟩)
      else (parseAuthority s).map fun a => { authority := some a, path := [] } := by
  unfold parseUri
  have hhtt : s.dropPrefix? (ascii "http://") = none := dropPrefix?_scheme h _
  have hh : s.dropPrefix? (ascii "https://") = none := dropPrefix?_scheme h _
  rw [hhtt, hh]

lemma parseUri_origin {u : Uri} (hhead : s.head? = some (byte '/') ∨ s.head? = some (byte '?'))
    (h : parseUri s = .ok u) : u = withPath none none ⟨s⟩ := by
  have hh : s.head? ≠ some (byte 'h') := by
    rcases hhead with hhead | hhead <;> rw [hhead] <;> decide
  rw [parseUri_relative hh] at h
  split at h
  · exact (ok.inj h).symm
  rename_i hrooted
  obtain ⟨a, ha, -⟩ := map_eq_ok h
  obtain ⟨hb, -⟩ := parseAuthority_eq_ok ha
  rcases hhead with hhead | hhead
  · simp [hhead] at hrooted
  · rw [List.all_eq_true] at hb
    exact absurd (hb _ (List.mem_of_head? hhead)) (by decide)

@[reducible] def library : UriLibrary where
  parseAuthority := parseAuthority
  parsePathAndQuery := parsePathAndQuery
  parseUri := parseUri
  fromParts := fromParts
  parseAuthority_text := by
    intro s a h
    rw [(parseAuthority_eq_ok h).2]
  fromParts_scheme := by
    intro s a p u h
    rcases fromParts_eq_ok h with ⟨q, -, -, rfl⟩ | ⟨hnone, -, -⟩
    · rfl
    · cases hnone
  fromParts_authority := by
    intro s a p u h
    rcases fromParts_eq_ok h with ⟨q, -, -, rfl⟩ | ⟨-, -, rfl⟩ <;> rfl
  fromParts_pathAndQuery := by
    intro s a p u h
    rcases fromParts_eq_ok h with ⟨q, hq, -, rfl⟩ | ⟨-, hnone, -⟩
    · exact hq.symm
    · cases hnone
  parseUri_absolute := by
    intro scheme s a u hscheme ha hu
    unfold parseUri at hu
    rcases hscheme with rfl | rfl
    · have hdrop : (ascii "http" ++ ascii "://" ++ s).dropPrefix? (ascii "http://") = some s :=
        dropPrefix?_eq_some.mpr rfl
      simp only [hdrop] at hu
      obtain ⟨a', ha', rfl⟩ := map_eq_ok hu
      rw [ha] at ha'
      rw [Except.ok.inj ha']
      rfl
    have hdrop : (ascii "https" ++ ascii "://" ++ s).dropPrefix? (ascii "https://") = some s :=
      dropPrefix?_eq_some.mpr rfl
    have hnone : (ascii "https" ++ ascii "://" ++ s).dropPrefix? (ascii "http://") = none := rfl
    simp only [hdrop, hnone] at hu
    obtain ⟨a', ha', rfl⟩ := map_eq_ok hu
    rw [ha] at ha'
    rw [Except.ok.inj ha']
    rfl
  parseUri_authority := by
    intro s a u ha hport
    rw [(parseAuthority_eq_ok ha).2] at hport
    cases hport
  parseUri_origin := by
    intro s u hhead h
    rw [parseUri_origin hhead h]
    rfl
  parsePathAndQuery_head := by
    intro s p hhead h
    unfold parsePathAndQuery at h
    split at h
    · cases h
      exact hhead
    · cases h
  fromParts_isSome := by
    intro s a p u h
    rcases fromParts_eq_ok h with ⟨q, rfl, -, -⟩ | ⟨hnone, -, -⟩
    · rfl
    · cases hnone
  fromParts_rooted := by
    intro s a p u h hpath
    rcases fromParts_eq_ok h with ⟨q, hq, hrooted, rfl⟩ | ⟨-, hnone, -⟩
    · cases hq
      rcases hrooted with hrooted | hasterisk
      · exact Or.inl hrooted
      · simp only [withPath, hasterisk] at hpath
        exact absurd hpath (by decide)
    · cases hnone
  parseUri_origin_scheme := by
    intro s u hhead h
    rw [parseUri_origin hhead h]
    rfl

end Aioduct.Http.PlainUri
