import Mathlib.Tactic.Common

/-!
# Ordered association lists

Insertion that keeps the position of an existing key.
-/

namespace Wire.Assoc

open List Or

variable {κ ν : Type}

def keys (l : List (κ × ν)) : List κ := l.map (·.1)

@[simp] lemma keys_nil : keys ([] : List (κ × ν)) = [] := rfl

@[simp] lemma keys_cons (kv : κ × ν) (l : List (κ × ν)) : keys (kv :: l) = kv.1 :: keys l := rfl

@[simp] lemma keys_append (l m : List (κ × ν)) : keys (l ++ m) = keys l ++ keys m := by simp [keys]

variable {l acc : List (κ × ν)} {k : κ} {v : ν}

lemma nodup_keys_filter (hl : (keys l).Nodup) (p : κ × ν → Bool) : (keys (l.filter p)).Nodup :=
  hl.sublist (filter_sublist.map _)

variable [DecidableEq κ]

def replaceOrAppend : List (κ × ν) → κ → ν → List (κ × ν)
  | [], k, v => [(k, v)]
  | (k', v') :: rest, k, v =>
    if k' = k then (k', v) :: rest else (k', v') :: replaceOrAppend rest k v

def foldIn (acc l : List (κ × ν)) : List (κ × ν) :=
  l.foldl (fun acc kv => replaceOrAppend acc kv.1 kv.2) acc

def get (l : List (κ × ν)) (k : κ) : Option ν := (l.find? (·.1 = k)).map (·.2)

lemma replaceOrAppend_of_notMem (h : k ∉ keys l) (v : ν) :
    replaceOrAppend l k v = l ++ [(k, v)] := by
  induction l with
  | nil => rfl
  | cons kv l ih =>
    simp only [keys_cons, mem_cons, not_or] at h
    simp [replaceOrAppend, Ne.symm h.1, ih h.2]

lemma mem_of_get (h : get l k = some v) : (k, v) ∈ l := by
  obtain ⟨kv, hf, rfl⟩ := Option.map_eq_some_iff.mp h
  have hk : kv.1 = k := by simpa using List.find?_some hf
  rw [← hk]
  exact mem_of_find?_eq_some hf

lemma get_of_mem (hl : (keys l).Nodup) (h : (k, v) ∈ l) : get l k = some v := by
  induction l with
  | nil => cases h
  | cons kv l ih =>
    rw [keys_cons, nodup_cons] at hl
    rcases mem_cons.mp h with rfl | h
    · simp [get]
    have hne : kv.1 ≠ k := by
      rintro rfl
      exact hl.1 (mem_map.mpr ⟨(kv.1, v), h, rfl⟩)
    simpa [get, hne] using ih hl.2 h

lemma get_replaceOrAppend_self (l : List (κ × ν)) (k : κ) (v : ν) :
    get (replaceOrAppend l k v) k = some v := by
  induction l with
  | nil => simp [get, replaceOrAppend]
  | cons kv l ih =>
    by_cases hk : kv.1 = k
    · simp [get, replaceOrAppend, hk]
    · simpa [get, replaceOrAppend, hk] using ih

lemma get_replaceOrAppend_of_ne (l : List (κ × ν)) {k' : κ} (h : k' ≠ k) (v : ν) :
    get (replaceOrAppend l k v) k' = get l k' := by
  induction l with
  | nil => simp [get, replaceOrAppend, h.symm]
  | cons kv l ih =>
    by_cases hk : kv.1 = k
    · simp [get, replaceOrAppend, hk, h.symm]
    by_cases hk' : kv.1 = k'
    · have hne : ¬k' = k := h
      simp [get, replaceOrAppend, hk', hne]
    · simpa [get, replaceOrAppend, hk, hk'] using ih

lemma get_filter_ne_self (l : List (κ × ν)) (k : κ) : get (l.filter (·.1 ≠ k)) k = none := by
  simp [get]

lemma get_filter_ne_of_ne (l : List (κ × ν)) {k' : κ} (h : k' ≠ k) :
    get (l.filter (·.1 ≠ k)) k' = get l k' := by
  simp only [get, List.find?_filter]
  congr 2
  funext kv
  by_cases hk : kv.1 = k'
  · simp [hk, h]
  · simp [hk]

lemma get_filter (hl : (keys l).Nodup) (p : κ × ν → Bool) (k : κ) :
    get (l.filter p) k = (get l k).filter fun v => p (k, v) := by
  apply Option.ext
  intro v
  rw [Option.filter_eq_some_iff]
  constructor
  · intro h
    have hm := mem_filter.mp (mem_of_get h)
    exact ⟨get_of_mem hl hm.1, hm.2⟩
  · rintro ⟨h, hp⟩
    exact get_of_mem (nodup_keys_filter hl p) (mem_filter.mpr ⟨mem_of_get h, hp⟩)

lemma get_foldIn (acc l : List (κ × ν)) (k : κ) :
    get (foldIn acc l) k =
      ((l.reverse.find? (·.1 = k)).map (·.2)).or (get acc k) := by
  induction l generalizing acc with
  | nil => simp [foldIn]
  | cons kv l ih =>
    have hf : foldIn acc (kv :: l) = foldIn (replaceOrAppend acc kv.1 kv.2) l := rfl
    rw [hf, ih, reverse_cons, List.find?_append]
    by_cases hk : kv.1 = k
    · subst hk
      rw [get_replaceOrAppend_self]
      cases l.reverse.find? (·.1 = kv.1) <;> simp
    · rw [get_replaceOrAppend_of_ne acc (Ne.symm hk)]
      simp [hk]

lemma keys_replaceOrAppend (l : List (κ × ν)) (k : κ) (v : ν) :
    keys (replaceOrAppend l k v) = if k ∈ keys l then keys l else keys l ++ [k] := by
  induction l with
  | nil => simp [replaceOrAppend]
  | cons kv l ih =>
    by_cases hk : kv.1 = k
    · simp [replaceOrAppend, hk]
    · by_cases hm : k ∈ keys l
      · simp [replaceOrAppend, hk, ih, hm]
      · simp [replaceOrAppend, hk, ih, hm, Ne.symm hk]

lemma length_replaceOrAppend_le (l : List (κ × ν)) (k : κ) (v : ν) :
    (replaceOrAppend l k v).length ≤ l.length + 1 := by
  induction l with
  | nil => exact Nat.le_refl _
  | cons kv l ih =>
    rw [replaceOrAppend]
    split <;> simp [ih]

lemma nodup_keys_replaceOrAppend (h : (keys l).Nodup) (k : κ) (v : ν) :
    (keys (replaceOrAppend l k v)).Nodup := by
  rw [keys_replaceOrAppend]
  by_cases hm : k ∈ keys l
  · simpa [hm] using h
  · simpa [hm, nodup_append] using ⟨h, fun a ha hak => hm (hak ▸ ha)⟩

lemma mem_replaceOrAppend {kv : κ × ν} (h : kv ∈ replaceOrAppend l k v) : kv ∈ l ∨ kv = (k, v) := by
  induction l with
  | nil => exact inr (by simpa [replaceOrAppend] using h)
  | cons kv' l ih =>
    by_cases hk : kv'.1 = k
    · simp only [replaceOrAppend, hk, if_true, mem_cons] at h
      rcases h with rfl | h
      · exact inr rfl
      · exact inl (mem_cons_of_mem _ h)
    simp only [replaceOrAppend, hk, if_false, mem_cons] at h
    rcases h with rfl | h
    · exact inl (by simp)
    · exact (ih h).imp_left (mem_cons_of_mem _)

@[simp] lemma foldIn_nil (acc : List (κ × ν)) : foldIn acc [] = acc := rfl

@[simp] lemma foldIn_cons (acc : List (κ × ν)) (kv : κ × ν) (l : List (κ × ν)) :
    foldIn acc (kv :: l) = foldIn (replaceOrAppend acc kv.1 kv.2) l := rfl

lemma nodup_keys_foldIn (h : (keys acc).Nodup) (l : List (κ × ν)) :
    (keys (foldIn acc l)).Nodup := by
  induction l generalizing acc with
  | nil => exact h
  | cons kv l ih => exact ih (nodup_keys_replaceOrAppend h kv.1 kv.2)

lemma mem_foldIn {kv : κ × ν} (h : kv ∈ foldIn acc l) : kv ∈ acc ∨ kv ∈ l := by
  induction l generalizing acc with
  | nil => exact inl h
  | cons kv' l ih =>
    rcases ih h with h | h
    · rcases mem_replaceOrAppend h with h | rfl
      · exact inl h
      · exact inr (by simp)
    · exact inr (mem_cons_of_mem _ h)

lemma foldIn_of_nodup (h : (keys (acc ++ l)).Nodup) : foldIn acc l = acc ++ l := by
  induction l generalizing acc with
  | nil => simp
  | cons kv l ih =>
    have hk : kv.1 ∉ keys acc := by
      intro hk
      simp only [keys_append, keys_cons, nodup_append] at h
      exact h.2.2 kv.1 hk kv.1 (by simp) rfl
    rw [foldIn_cons, replaceOrAppend_of_notMem hk, ih]
    · simp
    · simpa using h

/-- `Iterator::min_by_key`: the first of the least. -/
def minByKey {α : Type} (key : α → Int) : List α → Option α
  | [] => none
  | a :: l =>
    match minByKey key l with
    | some b => if key b < key a then some b else some a
    | none => some a

lemma mem_of_minByKey {α : Type} {key : α → Int} {l : List α} {a : α}
    (h : minByKey key l = some a) : a ∈ l := by
  induction l generalizing a with
  | nil => cases h
  | cons b l ih =>
    unfold minByKey at h
    split at h
    next least hl =>
      split at h
      · exact mem_cons_of_mem b (Option.some.inj h ▸ ih hl)
      · exact Option.some.inj h ▸ mem_cons_self
    · exact Option.some.inj h ▸ mem_cons_self

end Wire.Assoc
