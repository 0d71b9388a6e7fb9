import Mathlib.Data.List.AList

/-!
# Tables, counters and their owners

A table of numbers counts, for each key, the owners of something that is given out under the key.
-/

namespace Wire

open List Option AList

variable {κ ν : Type} [DecidableEq κ]

abbrev Table (κ ν : Type) := AList fun _ : κ => ν

namespace Table

variable (f : κ → ν → Option ν)

def keep (entry : Sigma fun _ : κ => ν) : Option (Sigma fun _ : κ => ν) :=
  (f entry.1 entry.2).map (Sigma.mk entry.1)

omit [DecidableEq κ] in
lemma keys_filterMap_keep (l : List (Sigma fun _ : κ => ν)) :
    List.Sublist (l.filterMap (keep f)).keys l.keys := by
  induction l with
  | nil => exact List.Sublist.refl _
  | cons entry l ih =>
    rw [filterMap_cons]
    cases hk : keep f entry with
    | none => exact ih.cons _
    | some kept =>
      obtain ⟨value, -, rfl⟩ := map_eq_some_iff.mp hk
      exact ih.cons_cons _

/-- `HashMap::retain`, with the values changed on the way. -/
def filterMap (f : κ → ν → Option ν) (t : Table κ ν) : Table κ ν where
  entries := t.entries.filterMap (keep f)
  nodupKeys := List.Nodup.sublist (keys_filterMap_keep f t.entries) t.nodupKeys

lemma lookup_filterMap (t : Table κ ν) (k : κ) :
    (t.filterMap f).lookup k = (t.lookup k).bind (f k) := by
  obtain ⟨l, hl⟩ := t
  unfold filterMap AList.lookup
  simp only
  induction l with
  | nil => rfl
  | cons entry l ih =>
    obtain ⟨k', v⟩ := entry
    have hnodup := nodupKeys_cons.mp hl
    rw [filterMap_cons]
    by_cases hk : k = k'
    · subst hk
      have ha : (l.filterMap (keep f)).dlookup k = none := by
        rw [dlookup_eq_none]
        exact fun h => hnodup.1 ((keys_filterMap_keep f l).subset h)
      cases hv : f k v with
      | none => simp [keep, hv, ha]
      | some value => simp [keep, hv]
    rw [dlookup_cons_ne _ _ hk, ← ih hnodup.2]
    cases hv : f k' v with
    | none => simp [keep, hv]
    | some value =>
      simp only [keep, hv, map_some]
      rw [dlookup_cons_ne _ _ hk]

variable (weight : ν → Nat)

def total (t : Table κ ν) : Nat := t.entries.foldr (fun entry sum => weight entry.2 + sum) 0

def weightAt (t : Table κ ν) (k : κ) : Nat :=
  match t.lookup k with
  | some v => weight v
  | none => 0

lemma total_erase (t : Table κ ν) (k : κ) :
    total weight t = weightAt weight t k + total weight (t.erase k) := by
  obtain ⟨l, hl⟩ := t
  unfold total weightAt AList.lookup AList.erase
  simp only
  clear hl
  induction l with
  | nil => rfl
  | cons entry l ih =>
    obtain ⟨k', v⟩ := entry
    by_cases hk : k = k'
    · subst hk
      have he : List.kerase k (⟨k, v⟩ :: l) = l := kerase_cons_eq rfl
      rw [dlookup_cons_eq, he]
      rfl
    · rw [dlookup_cons_ne _ _ hk, kerase_cons_ne hk, foldr_cons, foldr_cons, ih]
      omega

omit [DecidableEq κ] in
lemma total_filterMap_le {weight : ν → Nat} {f : κ → ν → Option ν}
    (hf : ∀ k v v', f k v = some v' → weight v' ≤ weight v) (t : Table κ ν) :
    total weight (t.filterMap f) ≤ total weight t := by
  obtain ⟨l, hl⟩ := t
  unfold total filterMap
  simp only
  clear hl
  induction l with
  | nil => exact le_rfl
  | cons entry l ih =>
    rw [filterMap_cons, foldr_cons]
    cases hk : keep f entry with
    | none => exact Nat.le_trans ih (Nat.le_add_left _ _)
    | some kept =>
      obtain ⟨v, hv, rfl⟩ := map_eq_some_iff.mp hk
      exact Nat.add_le_add (hf _ _ _ hv) ih

end Table

abbrev Counters (κ : Type) := Table κ Nat

namespace Counters

variable (t : Counters κ)

def count (k : κ) : Nat := (t.lookup k).getD 0

def increment (k : κ) : Counters κ := t.insert k (t.count k + 1)

/-- A count does not go below zero, and a key with count zero is removed. -/
def decrement (k : κ) : Counters κ :=
  match t.lookup k with
  | some n => if n - 1 = 0 then t.erase k else t.insert k (n - 1)
  | none => t

lemma count_increment (k k' : κ) :
    (t.increment k).count k' = t.count k' + if k' = k then 1 else 0 := by
  unfold increment
  split
  next h =>
    rw [h, count, lookup_insert]
    rfl
  next h =>
    rw [count, lookup_insert_ne h]
    rfl

lemma count_decrement (k k' : κ) :
    (t.decrement k).count k' = t.count k' - if k' = k then 1 else 0 := by
  unfold decrement
  split
  next n hn =>
    by_cases h : k' = k
    · subst h
      rw [if_pos rfl, count, count, hn]
      split
      next hzero =>
        rw [lookup_erase]
        exact hzero.symm
      · rw [lookup_insert]
        rfl
    rw [if_neg h, count, count]
    split
    · rw [lookup_erase_ne h]
      rfl
    · rw [lookup_insert_ne h]
      rfl
  next hn =>
    by_cases h : k' = k
    · subst h
      rw [if_pos rfl, count, hn]
      rfl
    · rw [if_neg h]
      rfl

/-- Each count is the number of owners and of those that were forgotten. -/
def Balanced (owners forgotten : List κ) : Prop :=
  ∀ k, t.count k = owners.count k + forgotten.count k

namespace Balanced

variable {t : Counters κ} {owners forgotten : List κ} {k : κ}

lemma perm (h : Balanced t owners forgotten) {others : List κ} (hp : owners.Perm others) :
    Balanced t others forgotten := by
  intro k
  rw [h k, hp.count_eq]

lemma increment (h : Balanced t owners forgotten) (k : κ) :
    Balanced (t.increment k) (k :: owners) forgotten := by
  intro k'
  rw [count_increment, h k']
  by_cases hk : k' = k
  · subst hk
    simp only [if_true, count_cons_self]
    omega
  · rw [if_neg hk, count_cons_of_ne (Ne.symm hk), Nat.add_zero]

lemma decrement (h : Balanced t (k :: owners) forgotten) :
    Balanced (t.decrement k) owners forgotten := by
  intro k'
  rw [count_decrement, h k']
  by_cases hk : k' = k
  · subst hk
    simp only [if_true, count_cons_self]
    omega
  · rw [if_neg hk, count_cons_of_ne (Ne.symm hk), Nat.sub_zero]

lemma forget (h : Balanced t (k :: owners) forgotten) : Balanced t owners (k :: forgotten) := by
  intro k'
  rw [h k', count_cons, count_cons]
  omega

lemma exact_iff (h : Balanced t owners forgotten) :
    (∀ k, t.count k = owners.count k) ↔ forgotten = [] := by
  constructor
  · intro he
    refine eq_nil_iff_forall_not_mem.mpr fun k hk => ?_
    have hpos := count_pos_iff.mpr hk
    have hc := h k
    rw [he k] at hc
    omega
  · rintro rfl k
    rw [h k, count_nil, Nat.add_zero]

end Balanced

end Counters

def takeAt {α : Type} : List α → Nat → Option (α × List α)
  | [], _ => none
  | a :: l, 0 => some (a, l)
  | a :: l, i + 1 => (takeAt l i).map fun taken => (taken.1, a :: taken.2)

lemma takeAt_perm {α : Type} {l : List α} {i : Nat} {a : α} {rest : List α}
    (h : takeAt l i = some (a, rest)) : l.Perm (a :: rest) := by
  induction l generalizing i rest with
  | nil => cases h
  | cons b l ih =>
    cases i with
    | zero =>
      cases h
      exact List.Perm.refl _
    | succ i =>
      obtain ⟨⟨a', rest'⟩, ht, heq⟩ := map_eq_some_iff.mp h
      cases heq
      exact ((ih ht).cons b).trans (List.Perm.swap _ _ _)

end Wire
